import EdgeClient.Wire.Writer

/-!
# Filling in reserved fields

A length field is filled in by writing over the zeros that were reserved for it. The laws here say
what the bytes are afterwards: the ones in front of the field and behind it stay, and the field
holds the length.
-/

namespace EdgeClient.Writer

/-- Writing over bytes exchanges them and leaves those around them alone. -/
theorem overwrite_append {new old : Bytes} (h : new.length = old.length) (front back : Bytes) :
    overwrite (front ++ old ++ back).toArray front.length new = (front ++ new ++ back).toArray := by
  induction new generalizing front old with
  | nil =>
    obtain rfl : old = [] := List.length_eq_zero_iff.mp h.symm
    rfl
  | cons b new ih =>
    cases old with
    | nil => exact absurd h (by simp)
    | cons o old =>
      have hl : new.length = old.length := by simpa using h
      have hset : ((front ++ o :: old ++ back).toArray.setIfInBounds front.length b) =
          ((front ++ [b]) ++ old ++ back).toArray := by simp
      have hpos : front.length + 1 = (front ++ [b]).length := by simp
      rw [overwrite, hset, hpos, ih hl]
      simp

/-! ## The view of a writer -/

theorem eq_of_contents {w w' : Writer} (hc : w.contents = w'.contents)
    (hr : w.reserved = w'.reserved) (ht : w.openTag = w'.openTag) : w = w' := by
  obtain ⟨bytes, reserved, openTag⟩ := w
  obtain ⟨bytes', reserved', openTag'⟩ := w'
  obtain rfl : bytes = bytes' := Array.toList_inj.mp hc
  obtain rfl : reserved = reserved' := hr
  obtain rfl : openTag = openTag' := ht
  rfl

theorem length_contents (w : Writer) : w.contents.length = w.bytes.size := Array.length_toList

@[simp] theorem append_openTag (w : Writer) (bs : Bytes) : (w.append bs).openTag = w.openTag := rfl

@[simp] theorem append_reserved (w : Writer) (bs : Bytes) :
    (w.append bs).reserved = w.reserved := rfl

@[simp] theorem contents_append (w : Writer) (bs : Bytes) :
    (w.append bs).contents = w.contents ++ bs := by
  simp [contents, append]

theorem append_append (w : Writer) (bs cs : Bytes) :
    (w.append bs).append cs = w.append (bs ++ cs) :=
  eq_of_contents (by simp) rfl rfl

theorem append_nil (w : Writer) : w.append [] = w :=
  eq_of_contents (by simp) rfl rfl

/-- Filling in a field replaces the zeros that stand for it. -/
theorem fillLength_contents {w : Writer} {front back : Bytes} {length : Nat}
    (hw : w.contents = front ++ BigEndian.encode lengthFieldSize 0 ++ back)
    (hl : length < BigEndian.limit lengthFieldSize) :
    ∃ w', fillLength front.length length w = .ok () w' ∧
      w'.contents = front ++ BigEndian.encode lengthFieldSize length ++ back ∧
      w'.reserved = w.reserved ∧ w'.openTag = w.openTag := by
  have hb : w.bytes = (front ++ BigEndian.encode lengthFieldSize 0 ++ back).toArray :=
    Array.toList_inj.mp hw
  refine ⟨_, if_pos hl, ?_, rfl, rfl⟩
  show (overwrite w.bytes front.length _).toList = _
  rw [hb, overwrite_append (by simp)]

/-- Filling in a field that is there exchanges its bytes for the length and nothing else. -/
theorem fillLength_ok {w w' : Writer} {offset length : Nat}
    (hroom : offset + lengthFieldSize ≤ w.bytes.size)
    (h : fillLength offset length w = .ok () w') :
    ∃ front field body, front.length = offset ∧ field.length = lengthFieldSize ∧
      w.contents = front ++ field ++ body ∧
      w'.contents = front ++ BigEndian.encode lengthFieldSize length ++ body ∧
      w'.reserved = w.reserved ∧ w'.openTag = w.openTag := by
  unfold fillLength at h
  split at h
  · obtain ⟨-, rfl⟩ := EStateM.Result.ok.inj h
    have hsize : w.contents.length = w.bytes.size := length_contents w
    have hfront : (w.contents.take offset).length = offset := by
      rw [List.length_take]
      omega
    have hfield : ((w.contents.drop offset).take lengthFieldSize).length = lengthFieldSize := by
      rw [List.length_take, List.length_drop]
      omega
    have hsplit : w.contents = w.contents.take offset ++
        (w.contents.drop offset).take lengthFieldSize ++
        w.contents.drop (offset + lengthFieldSize) := by
      rw [← List.drop_drop, List.append_assoc, List.take_append_drop, List.take_append_drop]
    refine ⟨_, _, _, hfront, hfield, hsplit, ?_, rfl, rfl⟩
    have hbytes : w.bytes = (w.contents.take offset ++
        (w.contents.drop offset).take lengthFieldSize ++
        w.contents.drop (offset + lengthFieldSize)).toArray := by
      rw [← hsplit]
      rfl
    have hover := overwrite_append
      ((BigEndian.length_encode lengthFieldSize length).trans hfield.symm)
      (w.contents.take offset) (w.contents.drop (offset + lengthFieldSize))
    rw [hfront, ← hbytes] at hover
    show (overwrite w.bytes offset _).toList = _
    rw [hover]
  · exact absurd h (by simp)

theorem size_of_fillLength {w w' : Writer} {offset length : Nat}
    (hroom : offset + lengthFieldSize ≤ w.bytes.size)
    (h : fillLength offset length w = .ok () w') : w'.bytes.size = w.bytes.size := by
  obtain ⟨front, field, body, -, hfield, hbefore, hafter, -⟩ := fillLength_ok hroom h
  rw [← length_contents, ← length_contents, hbefore, hafter]
  simp only [List.length_append, BigEndian.length_encode, hfield]

/-! ## Ending a message -/

section

variable {w : Writer} {tag : UInt8} {front body : Bytes}

/-- What is left of ending a message once its field is known. -/
theorem endMessage_eq (ht : w.openTag = some tag) (hr : w.reserved = [front.length])
    (hc : w.contents = front ++ BigEndian.encode lengthFieldSize 0 ++ body) :
    endMessage w =
      match fillLength front.length (lengthFieldSize + body.length) { w with reserved := [] } with
      | .ok _ w => .ok () { w with openTag := none }
      | .error e w => .error e w := by
  have hsize : w.bytes.size - front.length = lengthFieldSize + body.length := by
    rw [← length_contents, hc]
    simp only [List.length_append, BigEndian.length_encode]
    omega
  rw [← hsize]
  obtain ⟨bytes, reserved, openTag⟩ := w
  obtain rfl : openTag = some tag := ht
  obtain rfl : reserved = [front.length] := hr
  exact Eq.refl _

theorem endMessage_of_fits (ht : w.openTag = some tag) (hr : w.reserved = [front.length])
    (hc : w.contents = front ++ BigEndian.encode lengthFieldSize 0 ++ body)
    (hfit : lengthFieldSize + body.length < BigEndian.limit lengthFieldSize) :
    ∃ w', endMessage w = .ok () w' ∧ w'.reserved = [] ∧ w'.openTag = none ∧
      w'.contents =
        front ++ BigEndian.encode lengthFieldSize (lengthFieldSize + body.length) ++ body := by
  have hc' : ({ w with reserved := [] } : Writer).contents =
      front ++ BigEndian.encode lengthFieldSize 0 ++ body := hc
  obtain ⟨w', hfill, hcontents, hreserved, -⟩ := fillLength_contents hc' hfit
  refine ⟨{ w' with openTag := none }, ?_, hreserved, rfl, hcontents⟩
  rw [endMessage_eq ht hr hc, hfill]

theorem endMessage_of_not_fits (ht : w.openTag = some tag) (hr : w.reserved = [front.length])
    (hc : w.contents = front ++ BigEndian.encode lengthFieldSize 0 ++ body)
    (hfit : ¬ lengthFieldSize + body.length < BigEndian.limit lengthFieldSize) :
    ∃ w', endMessage w = .error (.tooLarge (lengthFieldSize + body.length)) w' := by
  refine ⟨{ w with reserved := [] }, ?_⟩
  rw [endMessage_eq ht hr hc, fillLength, if_neg hfit]

end

end EdgeClient.Writer
