import EdgeClient.Proofs.Wire.Calls
import Mathlib.Data.List.Induction

/-!
# Reserved fields stay safe to fill in

A writer remembers reserved fields by their offsets, while bytes are added, drained and dropped in
whatever order the calls come, refused ones among them. Here it is shown that the offsets always
mean what they should: each of them is that of four zero bytes that are still there, no two fields
overlap, and filling one in leaves every byte outside of it alone (`run_isSafe`). So neither the
slice that is written over nor the subtractions that give its length can go wrong.

The order of the offsets is `IsSpaced`, which every call keeps. The rest comes from one fact about
bytes, `getElem?_after`: a call changes none that is there already, except in the field it fills in.
-/

namespace EdgeClient.Writer

variable {w w' : Writer} {call : Call} {offset length excluded i : Nat}

/-- The bytes of the field at an offset. -/
def field (w : Writer) (offset : Nat) : Bytes := (w.contents.drop offset).take lengthFieldSize

/-- Ending a message or a block gets to filling in the topmost field, with the number of bytes from
its offset on, less `excluded`. -/
inductive Call.Fills (w : Writer) : Call → (offset excluded : Nat) → Prop where
  | message {tag : UInt8} {offset : Nat} :
    w.openTag = some tag → w.reserved = [offset] → Fills w .endMessage offset 0
  | block {offset : Nat} {outer : List Nat} :
    w.reserved = offset :: outer → (w.openTag.isSome = true → outer ≠ []) →
      Fills w .endBlock offset lengthFieldSize

/-- What comes of filling in a field: it is all there, no other field is touched, and the length is
that of the bytes behind it unless it does not fit. -/
structure Call.FillsSafely (w : Writer) (call : Call) (offset excluded : Nat) : Prop where
  inBounds : offset + lengthFieldSize ≤ w.bytes.size
  counted : offset + excluded ≤ w.bytes.size
  apart : ∀ other ∈ (call.after w).reserved, other + lengthFieldSize ≤ offset
  result :
    (w.bytes.size - offset - excluded < 2 ^ 32 ∧ (∃ w', call.run w = .ok [] w') ∧
      (call.after w).field offset =
        BigEndian.encode lengthFieldSize (w.bytes.size - offset - excluded)) ∨
    (2 ^ 32 ≤ w.bytes.size - offset - excluded ∧ (call.after w).contents = w.contents ∧
      ∃ w', call.run w = .error (.tooLarge (w.bytes.size - offset - excluded)) w')

/-- Whether all that is reserved can be filled in. -/
structure IsSafe (w : Writer) : Prop where
  /-- From the outermost field to the innermost. -/
  ascending : w.reserved.reverse.Pairwise fun outer inner => outer + lengthFieldSize ≤ inner
  inBounds : ∀ offset ∈ w.reserved, offset + lengthFieldSize ≤ w.bytes.size
  blank : ∀ offset ∈ w.reserved, w.field offset = [0, 0, 0, 0]
  openReserved : w.openTag.isSome = true → w.bytes.size < 2 ^ 32 → w.reserved ≠ []
  filled : ∀ (call : Call) offset excluded, call.Fills w offset excluded →
    call.FillsSafely w offset excluded
  /-- Only filling in a field changes bytes that have been written. -/
  untouched : ∀ (call : Call) i, call ≠ .take → call ≠ .reset → i < w.bytes.size →
    (∀ offset excluded, call.Fills w offset excluded →
      i < offset ∨ offset + lengthFieldSize ≤ i) →
    (call.after w).contents[i]? = w.contents[i]?

/-! ## The bytes of a field -/

theorem field_congr (h : ∀ i, offset ≤ i → i < offset + lengthFieldSize →
    w'.contents[i]? = w.contents[i]?) : w'.field offset = w.field offset := by
  apply List.ext_getElem?
  intro i
  unfold field
  rw [List.getElem?_take, List.getElem?_take, List.getElem?_drop, List.getElem?_drop]
  by_cases hi : i < lengthFieldSize
  · rw [if_pos hi, if_pos hi, h _ (by omega) (by omega)]
  · rw [if_neg hi, if_neg hi]

theorem field_of_contents {front field body : Bytes}
    (hc : w.contents = front ++ field ++ body) (hfront : front.length = offset)
    (hfield : field.length = lengthFieldSize) : w.field offset = field := by
  unfold Writer.field
  rw [hc, List.append_assoc, ← hfront, List.drop_left, ← hfield, List.take_left]

/-- A field that has just been reserved is blank. -/
theorem field_reserve (w : Writer) : w.reserve.field w.bytes.size = [0, 0, 0, 0] := by
  have hc : w.reserve.contents = w.contents ++ [0, 0, 0, 0] ++ [] :=
    (contents_append w _).trans (List.append_nil _).symm
  exact field_of_contents hc (length_contents w) rfl

/-! ## Filling in -/

theorem getElem?_fillLength (hroom : offset + lengthFieldSize ≤ w.bytes.size)
    (h : fillLength offset length w = .ok () w') (hi : i < offset ∨ offset + lengthFieldSize ≤ i) :
    w'.contents[i]? = w.contents[i]? := by
  obtain ⟨front, field, body, hfront, hfield, hbefore, hafter, -⟩ := fillLength_ok hroom h
  have hsame : (BigEndian.encode lengthFieldSize length).length = field.length := by
    rw [BigEndian.length_encode, hfield]
  rw [hbefore, hafter, List.append_assoc, List.append_assoc]
  rcases hi with hlt | hle
  · rw [List.getElem?_append_left (by omega), List.getElem?_append_left (by omega)]
  · rw [List.getElem?_append_right (by omega), List.getElem?_append_right (by omega),
      List.getElem?_append_right (by omega), List.getElem?_append_right (by omega), hsame]

theorem field_fillLength (hroom : offset + lengthFieldSize ≤ w.bytes.size)
    (h : fillLength offset length w = .ok () w') :
    w'.field offset = BigEndian.encode lengthFieldSize length := by
  obtain ⟨front, field, body, hfront, -, -, hafter, -⟩ := fillLength_ok hroom h
  exact field_of_contents hafter hfront (BigEndian.length_encode _ _)

theorem lt_of_fillLength (h : fillLength offset length w = .ok () w') : length < 2 ^ 32 := by
  rcases fillLength_cases offset length w with ⟨hlt, -⟩ | ⟨-, hlarge⟩
  · exact hlt
  · rw [hlarge] at h
    exact nomatch h

theorem kept_fillLength (h : fillLength offset length w = .ok () w') :
    w'.reserved = w.reserved ∧ w'.openTag = w.openTag := by
  unfold fillLength at h
  split at h
  · obtain ⟨-, rfl⟩ := EStateM.Result.ok.inj h
    exact ⟨rfl, rfl⟩
  · exact nomatch h

/-- A call changes no byte that is there already, except in the field that it fills in. -/
theorem getElem?_after (h : w.IsSpaced) (htake : call ≠ .take) (hreset : call ≠ .reset)
    (hi : i < w.bytes.size)
    (hfills : ∀ offset excluded, call.Fills w offset excluded →
      i < offset ∨ offset + lengthFieldSize ≤ i) :
    (call.after w).contents[i]? = w.contents[i]? := by
  have hadded : ∀ bs : Bytes, (w.contents ++ bs)[i]? = w.contents[i]? := by
    intro bs
    exact List.getElem?_append_left (by rwa [length_contents])
  have heffect := call.effect w
  unfold Call.after
  generalize call.run w = result at heffect
  cases heffect with
  | refused | messageTooLarge | blockTooLarge => rfl
  | push bs =>
    rw [contents_append]
    exact hadded bs
  | @beginMessage tag =>
    have hc : (w.append [tag]).reserve.contents = w.contents ++ ([tag] ++ [0, 0, 0, 0]) := by
      rw [← List.append_assoc, ← contents_append w]
      exact contents_append _ _
    show (w.append [tag]).reserve.contents[i]? = _
    rw [hc]
    exact hadded _
  | beginBlock =>
    have hc : w.reserve.contents = w.contents ++ [0, 0, 0, 0] := contents_append w _
    rw [hc]
    exact hadded _
  | take => exact absurd rfl htake
  | reset => exact absurd rfl hreset
  | @endMessage tag offset w' ht hr hfill =>
    unfold IsSpaced at h
    rw [hr] at h
    have hout := hfills offset 0 (.message ht hr)
    show w'.contents[i]? = _
    exact getElem?_fillLength (w := { w with reserved := [] }) h.1 hfill hout
  | @endBlock offset outer w' hr houter hfill =>
    unfold IsSpaced at h
    rw [hr] at h
    have hout := hfills offset lengthFieldSize (.block hr houter)
    exact getElem?_fillLength (w := { w with reserved := outer }) h.1 hfill hout

/-- A call that gets to filling in a field does so once the field is off the stack. -/
theorem Call.Fills.run (hf : call.Fills w offset excluded) :
    ∃ outer openTag, w.reserved = offset :: outer ∧
      ((∃ w', fillLength offset (w.bytes.size - offset - excluded) { w with reserved := outer } =
          .ok () w' ∧ call.run w = .ok [] { w' with openTag }) ∨
        (2 ^ 32 ≤ w.bytes.size - offset - excluded ∧
          call.run w = .error (.tooLarge (w.bytes.size - offset - excluded))
            { w with reserved := outer })) := by
  have heffect := call.effect w
  generalize call.run w = result at heffect
  cases hf with
  | message ht hr =>
    cases heffect with
    | refused hrefused =>
      cases hrefused with
      | notOpen hnone => simp [ht] at hnone
      | blocksOpen _ hblocks => simp [hr] at hblocks
      | tooLong hpush => exact hpush.elim
    | push bs hpush => exact hpush.elim
    | @endMessage tag' offset' w' ht' hr' hfill =>
      obtain rfl : offset' = offset := by simpa [hr] using hr'.symm
      exact ⟨[], none, hr, Or.inl ⟨w', hfill, rfl⟩⟩
    | @messageTooLarge tag' offset' ht' hr' hlarge =>
      obtain rfl : offset' = offset := by simpa [hr] using hr'.symm
      exact ⟨[], none, hr, Or.inr ⟨hlarge, rfl⟩⟩
  | block hr houter =>
    cases heffect with
    | refused hrefused =>
      cases hrefused with
      | noBlock hown =>
        rw [hr] at hown
        by_cases ht : w.openTag.isSome = true
        · have houter' := List.length_pos_iff.mpr (houter ht)
          rw [if_pos ht, List.length_cons] at hown
          omega
        · rw [if_neg ht, List.length_cons] at hown
          omega
      | tooLong hpush => exact hpush.elim
    | push bs hpush => exact hpush.elim
    | @endBlock offset' outer' w' hr' houter' hfill =>
      obtain ⟨rfl, rfl⟩ := List.cons.inj (hr.symm.trans hr')
      exact ⟨_, w'.openTag, hr, Or.inl ⟨w', hfill, rfl⟩⟩
    | @blockTooLarge offset' outer' hr' houter' hlarge =>
      obtain ⟨rfl, rfl⟩ := List.cons.inj (hr.symm.trans hr')
      exact ⟨_, none, hr, Or.inr ⟨hlarge, rfl⟩⟩

theorem Call.Fills.safely (hf : call.Fills w offset excluded) (h : w.IsSpaced) :
    call.FillsSafely w offset excluded := by
  obtain ⟨outer, openTag, hr, hrun⟩ := hf.run
  unfold IsSpaced at h
  rw [hr] at h
  obtain ⟨hroom, houter⟩ := h
  have hcounted : offset + excluded ≤ w.bytes.size := by
    cases hf with
    | message => omega
    | block => exact hroom
  rcases hrun with ⟨w', hfill, hok⟩ | ⟨hlarge, herror⟩
  · have hafter : call.after w = { w' with openTag } := Call.after_of_ok hok
    refine ⟨hroom, hcounted, ?_, Or.inl ⟨lt_of_fillLength hfill, ⟨_, hok⟩, ?_⟩⟩
    · have hreserved : (call.after w).reserved = outer := by
        rw [hafter]
        exact (kept_fillLength hfill).1
      rw [hreserved]
      exact fun other hother => houter.of_mem hother
    · have hfield : w'.field offset = _ :=
        field_fillLength (w := { w with reserved := outer }) hroom hfill
      rw [hafter, ← hfield]
      rfl
  · have hafter : call.after w = { w with reserved := outer } := Call.after_of_error herror
    rw [← hafter] at herror
    refine ⟨hroom, hcounted, ?_, Or.inr ⟨hlarge, ?_, _, herror⟩⟩
    · rw [hafter]
      exact fun other hother => houter.of_mem hother
    · rw [hafter]
      rfl

/-! ## One call after the other -/

/-- Whether the zeros that reserved fields were made of are still there. -/
def IsBlank (w : Writer) : Prop := ∀ offset ∈ w.reserved, w.field offset = [0, 0, 0, 0]

theorem IsBlank.after (h : w.IsBlank) (hs : w.IsSpaced) (call : Call) :
    (call.after w).IsBlank := by
  have hkept : ∀ other ∈ w.reserved, call ≠ .take → call ≠ .reset →
      (∀ offset excluded, call.Fills w offset excluded → other + lengthFieldSize ≤ offset) →
      (call.after w).field other = [0, 0, 0, 0] := by
    intro other hother htake hreset hfills
    rw [← h other hother]
    apply field_congr
    intro i _ hlt
    have hroom := hs.of_mem hother
    apply getElem?_after hs htake hreset (by omega)
    intro offset excluded hf
    have hbefore := hfills offset excluded hf
    omega
  have heffect := call.effect w
  unfold Call.after at hkept ⊢
  generalize call.run w = result at heffect hkept
  cases heffect with
  | refused => exact h
  | take | reset => exact fun offset hoffset => absurd hoffset List.not_mem_nil
  | messageTooLarge => exact fun offset hoffset => absurd hoffset List.not_mem_nil
  | @endMessage tag offset w' ht hr hfill =>
    have hnone : w'.reserved = [] := (kept_fillLength hfill).1
    intro other hother
    have hmem : other ∈ w'.reserved := hother
    rw [hnone] at hmem
    exact absurd hmem List.not_mem_nil
  | push bs hpush =>
    intro other hother
    refine hkept other hother (fun hc => ?_) (fun hc => ?_) fun offset excluded hf => ?_
    · rw [hc] at hpush
      exact hpush.elim
    · rw [hc] at hpush
      exact hpush.elim
    · cases hf with
      | message | block => exact hpush.elim
  | @beginMessage tag =>
    intro other hother
    rcases List.mem_cons.mp hother with rfl | hother
    · exact field_reserve (w.append [tag])
    · exact hkept other hother nofun nofun nofun
  | beginBlock =>
    intro other hother
    rcases List.mem_cons.mp hother with rfl | hother
    · exact field_reserve w
    · exact hkept other hother nofun nofun nofun
  | @endBlock offset outer w' hr houter hfill =>
    have hreserved : w'.reserved = outer := (kept_fillLength hfill).1
    unfold IsSpaced at hs
    rw [hr] at hs
    intro other hother
    have hmem : other ∈ w'.reserved := hother
    rw [hreserved] at hmem
    refine hkept other (hr ▸ List.mem_cons_of_mem _ hmem) nofun nofun fun offset' _ hf => ?_
    cases hf with
    | block hr' =>
      obtain ⟨rfl, -⟩ := List.cons.inj (hr.symm.trans hr')
      exact hs.2.of_mem hmem
  | @blockTooLarge offset outer hr houter hlarge =>
    intro other hother
    exact h other (hr ▸ List.mem_cons_of_mem _ hother)

/-- Whether an open message still has a field, as it has unless it was too large to end. -/
def KeepsField (w : Writer) : Prop :=
  w.openTag.isSome = true → w.reserved = [] → 2 ^ 32 ≤ w.bytes.size

theorem KeepsField.after (h : w.KeepsField) (call : Call) : (call.after w).KeepsField := by
  have heffect := call.effect w
  unfold Call.after
  generalize call.run w = result at heffect
  cases heffect with
  | refused => exact h
  | take | reset | endMessage => exact fun hopen => absurd hopen Bool.false_ne_true
  | beginMessage | beginBlock => exact fun _ hnone => absurd hnone (List.cons_ne_nil _ _)
  | push bs =>
    intro hopen hnone
    have hlarge := h hopen hnone
    rw [size_bytes_append]
    omega
  | messageTooLarge ht hr hlarge =>
    intro _ _
    exact Nat.le_trans hlarge (Nat.sub_le _ _)
  | @endBlock offset outer w' hr houter hfill =>
    obtain ⟨hreserved, htag⟩ := kept_fillLength hfill
    intro hopen hnone
    have hopen : w'.openTag.isSome = true := hopen
    rw [htag] at hopen
    exact absurd (hreserved.symm.trans hnone) (houter hopen)
  | blockTooLarge hr houter hlarge => exact fun hopen hnone => absurd hnone (houter hopen)

theorem Spaced.pairwise {reserved : List Nat} {size : Nat} (h : Spaced reserved size) :
    reserved.reverse.Pairwise fun outer inner => outer + lengthFieldSize ≤ inner := by
  rw [List.pairwise_reverse]
  induction reserved generalizing size with
  | nil => exact List.Pairwise.nil
  | cons offset outer ih =>
    exact List.pairwise_cons.mpr ⟨fun other hother => h.2.of_mem hother, ih h.2⟩

theorem isBlank_run (calls : List Call) : (run calls).IsBlank := by
  induction calls using List.reverseRecOn with
  | nil => exact fun offset hoffset => absurd hoffset List.not_mem_nil
  | append_singleton calls call ih =>
    rw [run_append_singleton]
    exact ih.after (isSpaced_run calls) call

theorem keepsField_run (calls : List Call) : (run calls).KeepsField := by
  induction calls using List.reverseRecOn with
  | nil => exact fun hopen => absurd hopen Bool.false_ne_true
  | append_singleton calls call ih =>
    rw [run_append_singleton]
    exact ih.after call

/-- Whatever calls are made, in whatever order and however many of them are refused, all that is
reserved in the end can be filled in. -/
theorem run_isSafe (calls : List Call) : (run calls).IsSafe where
  ascending := (isSpaced_run calls).pairwise
  inBounds _ hoffset := (isSpaced_run calls).of_mem hoffset
  blank := isBlank_run calls
  openReserved hopen hsize hnone :=
    absurd (keepsField_run calls hopen hnone) (Nat.not_le_of_lt hsize)
  filled _ _ _ hf := hf.safely (isSpaced_run calls)
  untouched _ _ htake hreset hi hfills :=
    getElem?_after (isSpaced_run calls) htake hreset hi hfills

end EdgeClient.Writer
