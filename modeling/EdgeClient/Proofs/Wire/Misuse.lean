import EdgeClient.Proofs.Requests
import EdgeClient.Proofs.Scalar.Form
import EdgeClient.Proofs.Wire.Calls
import Mathlib.Data.List.Infix

/-!
# What a writer refuses

A writer refuses what does not fit the order of beginning and ending, and a value that is not of the
type it is to be written as. Such a refusal changes nothing, so whoever goes on after it has the
writer that the other calls alone would have made. The one refusal that does change the writer, for
a length that does not fit in its field, takes a message or a block of 2 ^ 32 bytes.
-/

namespace EdgeClient.Writer

open Requests

variable {w w' : Writer} {call : Call} {e : WireError}

/-- A writer is used by a call, or by writing a value as a given type. -/
inductive Use where
  | call (call : Call)
  | encode (t : ScalarType) (value : Scalar)
  deriving DecidableEq, Repr

namespace Use

/-- Makes use of a writer; only draining hands out bytes. -/
def run : Use → EStateM ScalarError Writer Bytes
  | .call call => EStateM.adaptExcept ScalarError.wire call.run
  | .encode t value => do
    t.encode value
    return []

theorem run_encode (t : ScalarType) (value : Scalar) (w : Writer) :
    Use.run (.encode t value) w =
      match t.encode value w with
      | .ok _ w => .ok [] w
      | .error e w => .error e w := by
  show EStateM.bind (t.encode value) (fun _ => pure []) w = _
  unfold EStateM.bind
  cases t.encode value w <;> rfl

end Use

/-- The writer after a new one has been used in some ways, whatever came of each. -/
def used (uses : List Use) : Writer := after Use.run {} uses

/-- What is wrong with ending a message or draining the writer when it cannot be done. -/
def misuse (w : Writer) : WireError :=
  match w.openTag with
  | some tag => .unterminatedMessage tag
  | none => .noOpenMessage

/-- A step is refused for a reason, and then it changes nothing, or there is no such reason and it
succeeds. -/
def Refuses {α : Type} (x : Write α) (w : Writer) (reason : Prop) (e : WireError) : Prop :=
  (reason ∧ x w = .error e w) ∨ (¬ reason ∧ ∃ a w', x w = .ok a w')

/-- What a writer refuses. -/
structure RefusesMisuse (w : Writer) : Prop where
  beginMessage : ∀ tag, Refuses (beginMessage tag) w (w.openTag ≠ none) .messageAlreadyOpen
  endMessage : Refuses endMessage w (w.openTag = none ∨ w.reserved.length ≠ 1) w.misuse
  /-- The field of an open message does not count as that of a block. -/
  endBlock : Refuses endBlock w (w.reserved.length ≤ if w.openTag.isSome then 1 else 0)
    .noOpenMessage
  take : Refuses take w (w.openTag ≠ none ∨ w.reserved ≠ []) w.misuse
  otherType : ∀ t (value : Scalar), value.type ≠ t →
    t.encode value w = .error (.typeMismatch t value.type) w
  /-- A value of the type itself is only ever refused for its length. -/
  ownType : ∀ value : Scalar,
    (value.Fits ∧ value.type.encode value w = .ok () (w.append value.toBytes)) ∨
      (¬ value.Fits ∧ ∃ size, value.type.encode value w = .error (.wire (.tooLarge size)) w)

/-- Whether the reserved fields are in order, that of an open message among them. -/
structure IsOrderly (w : Writer) : Prop where
  spaced : w.IsSpaced
  bracketed : w.IsBracketed

/-! ## One call -/

/-- Below 2 ^ 32 bytes nothing is too large for its field. -/
theorem refused_of_run (hsize : w.bytes.size < 2 ^ 32) (h : call.run w = .error e w') :
    call.Refused w e ∧ w' = w := by
  have heffect := call.effect w
  rw [h] at heffect
  cases heffect with
  | refused hrefused => exact ⟨hrefused, rfl⟩
  | @messageTooLarge tag offset ht hr hlarge => omega
  | @blockTooLarge offset outer hr houter hlarge => omega

theorem silent_of_error {x : Write Unit} (h : x w = .error e w') : silent x w = .error e w' := by
  unfold silent
  rw [h]

/-- A call that is only ever refused for a reason, and always if there is one. -/
theorem refuses_of_call (call : Call) {α : Type} {x : Write α} {reason : Prop}
    (hsize : w.bytes.size < 2 ^ 32)
    (hcall : ∀ e' w', x w = .error e' w' → call.run w = .error e' w')
    (hmisuse : reason → x w = .error e w) (hrefused : ∀ e', call.Refused w e' → reason) :
    Refuses x w reason e := by
  by_cases hreason : reason
  · exact Or.inl ⟨hreason, hmisuse hreason⟩
  · cases hx : x w with
    | ok a w' => exact Or.inr ⟨hreason, a, w', hx⟩
    | error e' w' =>
      have hrun := hcall e' w' hx
      exact absurd (hrefused e' (refused_of_run hsize hrun).1) hreason

theorem refuses_beginMessage (hsize : w.bytes.size < 2 ^ 32) (tag : UInt8) :
    Refuses (beginMessage tag) w (w.openTag ≠ none) .messageAlreadyOpen := by
  apply refuses_of_call (.beginMessage tag) hsize fun _ _ => silent_of_error
  · intro hopen
    obtain ⟨tag', ht⟩ := Option.ne_none_iff_exists'.mp hopen
    unfold beginMessage
    rw [ht]
  · intro e' hrefused
    cases hrefused with
    | alreadyOpen ht => simp [ht]
    | tooLong hpush => exact hpush.elim

theorem refuses_endMessage (hsize : w.bytes.size < 2 ^ 32) :
    Refuses endMessage w (w.openTag = none ∨ w.reserved.length ≠ 1) w.misuse := by
  apply refuses_of_call .endMessage hsize fun _ _ => silent_of_error
  · intro hmisuse
    obtain ⟨bytes, reserved, openTag⟩ := w
    cases openTag with
    | none => rfl
    | some tag =>
      match reserved with
      | [] => rfl
      | inner :: outer :: rest => rfl
      | [offset] => exact absurd hmisuse (by simp)
  · intro e' hrefused
    cases hrefused with
    | notOpen ht => exact Or.inl ht
    | blocksOpen ht hr => exact Or.inr hr
    | tooLong hpush => exact hpush.elim

theorem refuses_endBlock (hsize : w.bytes.size < 2 ^ 32) :
    Refuses endBlock w (w.reserved.length ≤ if w.openTag.isSome then 1 else 0) .noOpenMessage := by
  apply refuses_of_call .endBlock hsize fun _ _ => silent_of_error
  · intro hown
    obtain ⟨bytes, reserved, openTag⟩ := w
    cases reserved with
    | nil => rfl
    | cons offset outer => exact if_pos hown
  · intro e' hrefused
    cases hrefused with
    | noBlock hown => exact hown
    | tooLong hpush => exact hpush.elim

theorem refuses_take (hsize : w.bytes.size < 2 ^ 32) :
    Refuses take w (w.openTag ≠ none ∨ w.reserved ≠ []) w.misuse := by
  apply refuses_of_call .take hsize fun _ _ h => h
  · intro hmisuse
    obtain ⟨bytes, reserved, openTag⟩ := w
    cases openTag with
    | some tag => rfl
    | none =>
      cases reserved with
      | nil => exact absurd hmisuse (by simp)
      | cons offset outer => rfl
  · intro e' hrefused
    cases hrefused with
    | messageOpen ht => simp [ht]
    | blockOpen ht hr => exact Or.inr hr
    | tooLong hpush => exact hpush.elim

/-! ## Writing a value -/

theorem encode_of_ne {t : ScalarType} {value : Scalar} (hne : value.type ≠ t) (w : Writer) :
    t.encode value w = .error (.typeMismatch t value.type) w :=
  if_neg hne

/-- A value that is too long for its field leaves the writer alone. -/
theorem eq_of_write_error {value : Scalar} (h : value.write w = .error e w') : w' = w := by
  have hfield : ∀ bs, bytesField bs w = .error e w' → w' = w := by
    intro bs hbs
    unfold bytesField at hbs
    split at hbs
    · exact nomatch hbs
    · exact (EStateM.Result.error.inj hbs).2.symm
  cases value with
  | str text => exact hfield _ h
  | bytes content => exact hfield _ h
  | _ => exact nomatch h

theorem encode_ownType (value : Scalar) (w : Writer) :
    (value.Fits ∧ value.type.encode value w = .ok () (w.append value.toBytes)) ∨
      (¬ value.Fits ∧ ∃ size, value.type.encode value w = .error (.wire (.tooLarge size)) w) := by
  rw [ScalarType.encode_type]
  rcases Scalar.writes_write value w with ⟨hfits, hwrite⟩ | ⟨hlong, size, w', hwrite⟩
  · refine Or.inl ⟨hfits, ?_⟩
    rw [EStateM.adaptExcept, hwrite]
  · obtain rfl := eq_of_write_error hwrite
    refine Or.inr ⟨hlong, size, ?_⟩
    rw [EStateM.adaptExcept, hwrite]

/-- Writing a value adds its bytes or changes nothing. -/
theorem encode_cases (t : ScalarType) (value : Scalar) (w : Writer) :
    t.encode value w = .ok () (w.append value.toBytes) ∨ ∃ e, t.encode value w = .error e w := by
  by_cases htype : value.type = t
  · subst htype
    rcases encode_ownType value w with ⟨-, hencode⟩ | ⟨-, size, hencode⟩
    · exact Or.inl hencode
    · exact Or.inr ⟨_, hencode⟩
  · exact Or.inr ⟨_, encode_of_ne htype w⟩

theorem refusesMisuse_of_size (hsize : w.bytes.size < 2 ^ 32) : w.RefusesMisuse where
  beginMessage := refuses_beginMessage hsize
  endMessage := refuses_endMessage hsize
  endBlock := refuses_endBlock hsize
  take := refuses_take hsize
  otherType _ _ hne := encode_of_ne hne w
  ownType value := encode_ownType value w

/-! ## One use after the other -/

namespace IsOrderly

theorem append (h : w.IsOrderly) (bs : Bytes) : (w.append bs).IsOrderly :=
  ⟨h.spaced.append bs, h.bracketed.append bs⟩

/-- An open message would only lose its field to a length that does not fit in it. -/
theorem after (h : w.IsOrderly) (hsize : w.bytes.size < 2 ^ 32) (call : Call) :
    (call.after w).IsOrderly := by
  refine ⟨h.spaced.after call, ?_⟩
  have heffect := call.effect w
  unfold Call.after
  generalize call.run w = result at heffect
  cases heffect with
  | refused => exact h.bracketed
  | push bs => exact h.bracketed.append bs
  | beginMessage => exact fun _ => List.cons_ne_nil _ _
  | beginBlock => exact IsBracketed.reserve w
  | endMessage | take | reset => exact fun hopen => absurd hopen Bool.false_ne_true
  | messageTooLarge _ _ hlarge => omega
  | blockTooLarge _ _ hlarge => omega
  | @endBlock offset outer w' hr houter hfill =>
    have hspaced := h.spaced
    unfold IsSpaced at hspaced
    rw [hr] at hspaced
    obtain ⟨-, -, -, -, -, -, -, hreserved, hopen⟩ :=
      fillLength_ok (w := { w with reserved := outer }) hspaced.1 hfill
    show w'.openTag.isSome = true → w'.reserved ≠ []
    rw [hreserved, hopen]
    exact houter

theorem leftBehind (h : w.IsOrderly) (hsize : w.bytes.size < 2 ^ 32) (use : Use) :
    (leftBehind (use.run w)).IsOrderly := by
  cases use with
  | call call =>
    have hafter := h.after hsize call
    rw [Use.run, EStateM.adaptExcept]
    unfold Call.after at hafter
    cases hrun : call.run w with
    | ok bs w' | error e w' =>
      rw [hrun] at hafter
      exact hafter
  | encode t value =>
    rcases encode_cases t value w with hencode | ⟨e, hencode⟩
    · rw [Use.run_encode, hencode]
      exact h.append _
    · rw [Use.run_encode, hencode]
      exact h

end IsOrderly

/-- Below 2 ^ 32 bytes no refusal changes anything. -/
theorem eq_of_use_error {use : Use} {e : ScalarError} (hsize : w.bytes.size < 2 ^ 32)
    (h : use.run w = .error e w') : w' = w := by
  cases use with
  | call call =>
    rw [Use.run, EStateM.adaptExcept] at h
    cases hrun : call.run w with
    | ok bs w'' =>
      rw [hrun] at h
      exact nomatch h
    | error e' w'' =>
      rw [hrun] at h
      obtain rfl := (EStateM.Result.error.inj h).2
      exact (refused_of_run hsize hrun).2
  | encode t value =>
    rw [Use.run_encode] at h
    rcases encode_cases t value w with hencode | ⟨e', hencode⟩
    · rw [hencode] at h
      exact nomatch h
    · rw [hencode] at h
      exact (EStateM.Result.error.inj h).2.symm

variable {uses : List Use}

theorem isOrderly_used (h : ∀ before, before <+: uses → (used before).bytes.size < 2 ^ 32) :
    (used uses).IsOrderly := by
  induction uses using List.reverseRecOn with
  | nil => exact ⟨trivial, fun hopen => absurd hopen Bool.false_ne_true⟩
  | append_singleton uses use ih =>
    have hinit : uses <+: uses ++ [use] := List.prefix_append _ _
    have horderly := ih fun before hbefore => h before (hbefore.trans hinit)
    unfold used
    rw [after_append, after_cons, after_nil]
    exact horderly.leftBehind (h uses hinit) use

/-- Whatever a writer has been used for, its reserved fields are in order, it refuses what does not
fit in and nothing else, and the uses that it refused might as well not have been made. All this
takes fewer than 2 ^ 32 bytes at any time. -/
theorem used_refusesMisuse (uses : List Use)
    (h : ∀ before, before <+: uses → (used before).bytes.size < 2 ^ 32) :
    (used uses).IsOrderly ∧ (used uses).RefusesMisuse ∧
      used ((granted Use.run {} uses).map Prod.fst) = used uses ∧
      replies Use.run {} ((granted Use.run {} uses).map Prod.fst) =
        (granted Use.run {} uses).map fun (use, bs) => (use, .ok bs) := by
  have hquiet : RefusesQuietly Use.run {} uses := by
    intro before hbefore use e w' hrun
    exact eq_of_use_error (h before hbefore) hrun
  exact ⟨isOrderly_used h, refusesMisuse_of_size (h uses (List.prefix_refl uses)),
    granted_suffice hquiet⟩

/-- A writer that is used in the wrong order: a message is ended before it is begun, begun twice,
drained and ended with a block open, and a block is ended twice. A text is no number. -/
theorem used_refusesMisuse_outOfOrder :
    let uses : List Use :=
      [.call .endMessage, .call (.beginMessage 0x44), .call (.beginMessage 0x53), .call .take,
        .call .beginBlock, .call .endMessage, .encode .int32 (.str "1"), .encode .bool (.bool true),
        .call .endBlock, .call .endBlock]
    let proper : List Use :=
      [.call (.beginMessage 0x44), .call .beginBlock, .encode .bool (.bool true), .call .endBlock]
    (∀ before, before <+: uses → (used before).bytes.size < 2 ^ 32) ∧
      (used uses).RefusesMisuse ∧ (granted Use.run {} uses).map Prod.fst = proper ∧
      used proper = used uses := by
  intro uses proper
  have hsizes : ∀ before ∈ uses.inits, (used before).bytes.size < 2 ^ 32 := by decide
  have hshort : ∀ before, before <+: uses → (used before).bytes.size < 2 ^ 32 := by
    intro before hbefore
    exact hsizes before ((List.mem_inits before uses).mpr hbefore)
  have hgranted : (granted Use.run {} uses).map Prod.fst = proper := by decide
  obtain ⟨-, hrefuses, hused, -⟩ := used_refusesMisuse uses hshort
  rw [hgranted] at hused
  exact ⟨hshort, hrefuses, hgranted, hused⟩

end EdgeClient.Writer
