import EdgeClient.Proofs.Requests
import EdgeClient.Proofs.Wire.Calls

/-!
# When a writer is drained

Draining a writer takes its bytes away, and the fields that are reserved afterwards have other
offsets than they would have had. Nobody sees a difference, since draining is refused as long as a
field is reserved: all that is left of the bytes that were drained is that they are missing in front
of everything (`Writer.behind`), and no call looks there.
-/

namespace EdgeClient.Writer

open Requests

variable {w : Writer} {front : Bytes} {call : Call} {calls : List Call}

/-- The writer with `front` in front of all that it holds. -/
def behind (w : Writer) (front : Bytes) : Writer where
  bytes := front.toArray ++ w.bytes
  reserved := w.reserved.map (front.length + ·)
  openTag := w.openTag

theorem contents_behind (w : Writer) (front : Bytes) :
    (w.behind front).contents = front ++ w.contents := by
  simp [contents, behind]

theorem behind_nil (w : Writer) : w.behind [] = w := by
  refine eq_of_contents (contents_behind w []) ?_ rfl
  show w.reserved.map (0 + ·) = w.reserved
  simp

theorem size_behind (w : Writer) (front : Bytes) :
    (w.behind front).bytes.size = front.length + w.bytes.size := by
  simp [behind]

/-- What was drained can be put back in front of an empty writer. -/
theorem behind_of_closed (ht : w.openTag = none) (hr : w.reserved = []) (front : Bytes) :
    w.behind front = behind {} (front ++ w.contents) := by
  refine eq_of_contents ?_ ?_ ht
  · rw [contents_behind, contents_behind]
    simp [contents]
  · show w.reserved.map (front.length + ·) = []
    rw [hr, List.map_nil]

theorem append_behind (w : Writer) (front bs : Bytes) :
    (w.behind front).append bs = (w.append bs).behind front := by
  refine eq_of_contents ?_ rfl rfl
  rw [contents_append, contents_behind, contents_behind, contents_append, List.append_assoc]

theorem reserve_behind (w : Writer) (front : Bytes) :
    (w.behind front).reserve = w.reserve.behind front := by
  refine eq_of_contents ?_ ?_ rfl
  · have hcontents : ∀ v : Writer, v.reserve.contents =
        v.contents ++ BigEndian.encode lengthFieldSize 0 := fun v => contents_append v _
    rw [hcontents, contents_behind, contents_behind, hcontents, List.append_assoc]
  · show (w.behind front).bytes.size :: (w.behind front).reserved = _
    rw [size_behind]
    rfl

theorem overwrite_behind (front target : Array UInt8) (offset : Nat) (bs : Bytes) :
    overwrite (front ++ target) (front.size + offset) bs = front ++ overwrite target offset bs := by
  induction bs generalizing target offset with
  | nil => rfl
  | cons b bs ih =>
    have hlater : ¬ front.size + offset < front.size := by omega
    rw [overwrite, overwrite, Array.setIfInBounds_append, if_neg hlater, Nat.add_sub_cancel_left,
      Nat.add_assoc, ih]

/-! ## One call -/

/-- What comes of a step, with `front` in front of the writer that it leaves. -/
def moved {α : Type} (front : Bytes) :
    EStateM.Result WireError Writer α → EStateM.Result WireError Writer α
  | .ok a w => .ok a (w.behind front)
  | .error e w => .error e (w.behind front)

theorem answerOf_moved {α : Type} (front : Bytes) (r : EStateM.Result WireError Writer α) :
    answerOf (moved front r) = answerOf r := by
  cases r <;> rfl

theorem leftBehind_moved {α : Type} (front : Bytes) (r : EStateM.Result WireError Writer α) :
    leftBehind (moved front r) = (leftBehind r).behind front := by
  cases r <;> rfl

theorem silent_moved {x y : Write Unit} {v : Writer} (h : y v = moved front (x w)) :
    silent y v = moved front (silent x w) := by
  unfold silent
  rw [h]
  cases x w <;> rfl

theorem fillLength_behind (offset length : Nat) (w : Writer) (front : Bytes) :
    fillLength (front.length + offset) length (w.behind front) =
      moved front (fillLength offset length w) := by
  unfold fillLength
  by_cases hfit : length < BigEndian.limit lengthFieldSize
  · have hover := overwrite_behind front.toArray w.bytes offset
      (BigEndian.encode lengthFieldSize length)
    rw [List.size_toArray] at hover
    rw [if_pos hfit, if_pos hfit]
    unfold behind
    rw [hover]
    rfl
  · rw [if_neg hfit, if_neg hfit]
    rfl

theorem beginMessage_behind (tag : UInt8) (w : Writer) (front : Bytes) :
    beginMessage tag (w.behind front) = moved front (beginMessage tag w) := by
  have hopen : (w.behind front).openTag = w.openTag := rfl
  unfold beginMessage
  rw [hopen]
  cases w.openTag with
  | some open' => rfl
  | none =>
    show EStateM.Result.ok ()
      { ((w.behind front).append [tag]).reserve with openTag := some tag } = _
    rw [append_behind, reserve_behind]
    rfl

theorem endMessage_behind (w : Writer) (front : Bytes) :
    endMessage (w.behind front) = moved front (endMessage w) := by
  obtain ⟨bytes, reserved, openTag⟩ := w
  cases openTag with
  | none => rfl
  | some tag =>
    match reserved with
    | [] => rfl
    | inner :: outer :: rest => rfl
    | [offset] =>
      -- the length is a distance, and both of its ends have moved
      have hlength : (front.toArray ++ bytes).size - (front.length + offset) =
          bytes.size - offset := by
        rw [Array.size_append, List.size_toArray, Nat.add_sub_add_left]
      have hfill := fillLength_behind offset (bytes.size - offset) ⟨bytes, [], some tag⟩ front
      rw [← hlength] at hfill
      unfold endMessage
      simp only [behind, List.map_cons, List.map_nil] at hfill ⊢
      rw [hfill, hlength]
      cases fillLength offset (bytes.size - offset) ⟨bytes, [], some tag⟩ <;> rfl

theorem endBlock_behind (w : Writer) (front : Bytes) :
    endBlock (w.behind front) = moved front (endBlock w) := by
  obtain ⟨bytes, reserved, openTag⟩ := w
  cases reserved with
  | nil => rfl
  | cons offset outer =>
    have hlength : (front.toArray ++ bytes).size - (front.length + offset) - lengthFieldSize =
        bytes.size - offset - lengthFieldSize := by
      rw [Array.size_append, List.size_toArray, Nat.add_sub_add_left]
    unfold endBlock
    simp only [behind, List.map_cons, List.length_map, hlength]
    by_cases hown : outer.length < if openTag.isSome then 1 else 0
    · rw [if_pos hown, if_pos hown]
      rfl
    · rw [if_neg hown, if_neg hown]
      exact fillLength_behind offset _ ⟨bytes, outer, openTag⟩ front

theorem bytesField_behind (bs : Bytes) (w : Writer) (front : Bytes) :
    bytesField bs (w.behind front) = moved front (bytesField bs w) := by
  unfold bytesField
  by_cases hfit : bs.length < BigEndian.limit lengthFieldSize
  · rw [if_pos hfit, if_pos hfit, append_behind, append_behind]
    rfl
  · rw [if_neg hfit, if_neg hfit]
    rfl

/-- No call but the ones that empty the writer can tell that something is in front of it. -/
theorem run_behind (htake : call ≠ .take) (hreset : call ≠ .reset) (w : Writer) (front : Bytes) :
    call.run (w.behind front) = moved front (call.run w) := by
  cases call with
  | beginMessage tag => exact silent_moved (beginMessage_behind tag w front)
  | endMessage => exact silent_moved (endMessage_behind w front)
  | beginBlock =>
    have hstep : Writer.beginBlock (w.behind front) = moved front (Writer.beginBlock w) := by
      unfold Writer.beginBlock
      rw [reserve_behind]
      rfl
    exact silent_moved hstep
  | endBlock => exact silent_moved (endBlock_behind w front)
  | word width n =>
    have hstep : Writer.word width n (w.behind front) = moved front (Writer.word width n w) := by
      unfold Writer.word
      rw [append_behind]
      rfl
    exact silent_moved hstep
  | raw bs =>
    have hstep : Writer.raw bs (w.behind front) = moved front (Writer.raw bs w) := by
      unfold Writer.raw
      rw [append_behind]
      rfl
    exact silent_moved hstep
  | bytesField bs => exact silent_moved (bytesField_behind bs w front)
  | stringField s => exact silent_moved (bytesField_behind _ w front)
  | take => exact absurd rfl htake
  | reset => exact absurd rfl hreset

/-! ## Any number of calls -/

/-- What a call has handed out, given what came of it. -/
def Call.handedOut : Call × Except WireError Bytes → Bytes
  | (.take, .ok bs) => bs
  | _ => []

/-- All that was handed out when the writer was drained. -/
def drained (w : Writer) (calls : List Call) : Bytes :=
  (replies Call.run w calls).flatMap Call.handedOut

/-- Calls without the ones that drain the writer. -/
def withoutTakes (calls : List Call) : List Call :=
  calls.filter (· ≠ .take)

theorem leftBehind_run (call : Call) (w : Writer) : leftBehind (call.run w) = call.after w := by
  unfold Call.after
  cases call.run w <;> rfl

theorem run_eq_after (calls : List Call) : run calls = after Call.run {} calls := by
  have hstep : (fun w call => leftBehind (Call.run call w)) = fun w call => call.after w := by
    funext w call
    exact leftBehind_run call w
  unfold run after
  rw [hstep]

/-- Draining hands out what is there, or it is refused and changes nothing. -/
theorem take_cases (w : Writer) :
    (w.openTag = none ∧ w.reserved = [] ∧ Call.run .take w = .ok w.contents {}) ∨
      ∃ e, Call.run .take w = .error e w := by
  have heffect := Call.effect .take w
  generalize Call.run .take w = r at heffect
  cases heffect with
  | refused => exact Or.inr ⟨_, rfl⟩
  | push _ hpush => exact hpush.elim
  | take ht hr => exact Or.inl ⟨ht, hr, rfl⟩

/-- Two writers of which one is ahead of the other by the bytes that have been drained. The one that
is drained catches up with `front`, the other one keeps these bytes. -/
theorem withoutTakes_behind (hreset : .reset ∉ calls) (w : Writer) (front : Bytes) :
    replies Call.run (w.behind front) (withoutTakes calls) =
        (replies Call.run w calls).filter (·.1 ≠ .take) ∧
      after Call.run (w.behind front) (withoutTakes calls) =
        (after Call.run w calls).behind (front ++ drained w calls) := by
  induction calls generalizing w front with
  | nil =>
    refine ⟨rfl, ?_⟩
    show w.behind front = w.behind (front ++ [])
    rw [List.append_nil]
  | cons call rest ih =>
    have hrest : .reset ∉ rest := fun h => hreset (List.mem_cons_of_mem _ h)
    have hcall : call ≠ .reset := fun h => hreset (h ▸ List.mem_cons_self)
    by_cases htake : call = .take
    · subst htake
      have hwithout : withoutTakes (.take :: rest) = withoutTakes rest := rfl
      rw [hwithout]
      rcases take_cases w with ⟨ht, hr, hrun⟩ | ⟨e, hrun⟩
      · obtain ⟨hreplies, hafter⟩ := ih hrest {} (front ++ w.contents)
        have hdrained : drained w (.take :: rest) = w.contents ++ drained {} rest := by
          unfold drained
          rw [replies_of_ok hrun]
          rfl
        rw [behind_of_closed ht hr, hreplies, hafter, replies_of_ok hrun, after_of_ok hrun,
          hdrained, List.append_assoc]
        exact ⟨rfl, rfl⟩
      · obtain ⟨hreplies, hafter⟩ := ih hrest w front
        have hdrained : drained w (.take :: rest) = drained w rest := by
          unfold drained
          rw [replies_of_error hrun]
          rfl
        rw [hreplies, hafter, replies_of_error hrun, after_of_error hrun, hdrained]
        exact ⟨rfl, rfl⟩
    · obtain ⟨hreplies, hafter⟩ := ih hrest (leftBehind (call.run w)) front
      have hwithout : withoutTakes (call :: rest) = call :: withoutTakes rest := by
        simp [withoutTakes, htake]
      have hdrained : drained w (call :: rest) = drained (leftBehind (call.run w)) rest := by
        have hnothing : Call.handedOut (call, answerOf (call.run w)) = [] := by
          unfold Call.handedOut
          cases call <;> first | rfl | exact absurd rfl htake
        unfold drained
        rw [replies_cons, List.flatMap_cons, hnothing, List.nil_append]
      have hmove := run_behind htake hcall w front
      rw [hwithout, hdrained, replies_cons, replies_cons, after_cons, after_cons, hmove,
        answerOf_moved, leftBehind_moved, hreplies, hafter]
      refine ⟨?_, rfl⟩
      exact (List.filter_cons_of_pos (by simp [htake])).symm

/-- Draining a writer now and then, in whatever state it is, makes no difference to the other calls:
they get the same answers, and the bytes that are handed out and the ones that are left at the end
are together the bytes that would be left if the writer had never been drained. -/
theorem draining_changes_nothing (calls : List Call) (hreset : .reset ∉ calls) :
    (replies Call.run {} calls).filter (·.1 ≠ .take) = replies Call.run {} (withoutTakes calls) ∧
      drained {} calls ++ (run calls).contents = (run (withoutTakes calls)).contents := by
  obtain ⟨hreplies, hafter⟩ := withoutTakes_behind hreset {} []
  rw [behind_nil] at hreplies hafter
  refine ⟨hreplies.symm, ?_⟩
  rw [run_eq_after, run_eq_after, hafter, contents_behind, List.nil_append]

/-- A writer that is to be drained in the middle of a message, between messages, and while a block
is open outside of any message, and calls that end too much. -/
theorem draining_changes_nothing_midMessage :
    let calls : List Call :=
      [.beginMessage 0x44, .take, .raw [7], .endMessage, .take, .beginBlock, .take, .word 2 9,
        .endBlock, .endBlock, .beginMessage 0x53, .endMessage, .take, .raw [1]]
    .reset ∉ calls ∧
      drained {} calls ++ (run calls).contents = (run (withoutTakes calls)).contents ∧
      drained {} calls = [0x44, 0, 0, 0, 5, 7, 0, 0, 0, 2, 0, 9, 0x53, 0, 0, 0, 4] ∧
      (run calls).contents = [1] := by
  intro calls
  have hreset : .reset ∉ calls := by decide
  exact ⟨hreset, (draining_changes_nothing calls hreset).2, by decide, by decide⟩

end EdgeClient.Writer
