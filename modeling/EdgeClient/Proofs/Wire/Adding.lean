import EdgeClient.Proofs.Wire.Fields
import EdgeClient.Proofs.Wire.Framing
import EdgeClient.Proofs.Wire.Patching

/-!
# Steps that add bytes

Most steps on a writer do nothing but add bytes at its end. A single value adds fixed bytes or is
refused as too large, whatever the writer holds (`Writer.Writes`). A block adds bytes too, once it
has been ended: its length field is reserved first and filled in last, but all that is left in the
end is the field and the content behind it. This takes a writer whose reserved fields are in order,
since an ended block must not take the field of the message for its own (`Writer.Adds`).
-/

namespace EdgeClient.Writer

/-! ## Steps after each other -/

section

variable {ε : Type} {x y : EStateM ε Writer Unit} {w w' : Writer}

theorem bind_of_ok (h : x w = .ok () w') : (do x; y) w = y w' := by
  show EStateM.bind x (fun _ => y) w = _
  rw [EStateM.bind, h]

theorem bind_of_error {e : ε} (h : x w = .error e w') : (do x; y) w = .error e w' := by
  show EStateM.bind x (fun _ => y) w = _
  rw [EStateM.bind, h]

end

/-! ## Values -/

/-- A step that adds `bs` whenever `possible` holds, and else is refused as too large. -/
def Writes (x : Write Unit) (bs : Bytes) (possible : Prop) : Prop :=
  ∀ w, (possible ∧ x w = .ok () (w.append bs)) ∨
    (¬ possible ∧ ∃ size w', x w = .error (.tooLarge size) w')

theorem writes_nothing : Writes (return ()) [] True := fun w =>
  Or.inl ⟨trivial, congrArg (EStateM.Result.ok ()) w.append_nil.symm⟩

theorem writes_word (width n : Nat) : Writes (word width n) (BigEndian.encode width n) True :=
  fun _ => Or.inl ⟨trivial, rfl⟩

theorem writes_bytesField (bs : Bytes) : Writes (bytesField bs) bs.field (bs.length < 2 ^ 32) := by
  intro w
  unfold bytesField
  rw [BigEndian.limit_lengthFieldSize]
  by_cases h : bs.length < 2 ^ 32
  · refine Or.inl ⟨h, ?_⟩
    rw [if_pos h, append_append, Bytes.field]
  · exact Or.inr ⟨h, bs.length, w, if_neg h⟩

theorem writes_stringField (s : String) :
    Writes (stringField s) (Bytes.textField s) ((Bytes.ofString s).length < 2 ^ 32) :=
  writes_bytesField _

/-- Two steps after each other add the bytes of both. -/
theorem Writes.andThen {x y : Write Unit} {bs cs : Bytes} {p q : Prop} (hx : Writes x bs p)
    (hy : Writes y cs q) : Writes (do x; y) (bs ++ cs) (p ∧ q) := by
  intro w
  rcases hx w with ⟨hp, hxw⟩ | ⟨hp, size, w', hxw⟩
  · rw [bind_of_ok hxw]
    rcases hy (w.append bs) with ⟨hq, hyw⟩ | ⟨hq, size, w', hyw⟩
    · exact Or.inl ⟨⟨hp, hq⟩, by rw [hyw, append_append]⟩
    · exact Or.inr ⟨fun h => hq h.2, size, w', hyw⟩
  · exact Or.inr ⟨fun h => hp h.1, size, w', bind_of_error hxw⟩

theorem Writes.congr {x : Write Unit} {bs : Bytes} {p q : Prop} (h : Writes x bs p) (hpq : p ↔ q) :
    Writes x bs q := by
  rw [← propext hpq]
  exact h

/-! ## Blocks and messages -/

/-- Whether the field of an open message is among those still to be filled in. -/
def IsBracketed (w : Writer) : Prop := w.openTag.isSome = true → w.reserved ≠ []

/-- A step that adds `bs` to every writer whose reserved fields are in order. -/
def Adds (x : Write Unit) (bs : Bytes) : Prop :=
  ∀ w : Writer, w.IsBracketed → x w = .ok () (w.append bs)

variable {x y : Write Unit} {bs cs : Bytes} {p : Prop} {w : Writer}

theorem IsBracketed.append (h : w.IsBracketed) (bs : Bytes) : (w.append bs).IsBracketed := h

theorem IsBracketed.reserve (w : Writer) : w.reserve.IsBracketed :=
  fun _ => List.cons_ne_nil _ _

theorem Writes.adds (h : Writes x bs p) (hp : p) : Adds x bs := fun w _ =>
  (h w).elim And.right fun hn => absurd hp hn.1

theorem Adds.andThen (hx : Adds x bs) (hy : Adds y cs) : Adds (do x; y) (bs ++ cs) := by
  intro w hw
  rw [bind_of_ok (hx w hw), hy _ (hw.append bs), append_append]

theorem contents_reserve_append (w : Writer) (bs : Bytes) :
    (w.reserve.append bs).contents =
      w.contents ++ BigEndian.encode lengthFieldSize 0 ++ bs := by
  simp [contents, reserve, append]

/-- Ending a block fills in the field that was reserved for it, and no other. -/
theorem endBlock_reserve (hw : w.IsBracketed) (hbs : bs.length < 2 ^ 32) :
    endBlock (w.reserve.append bs) = .ok () (w.append bs.field) := by
  let ended : Writer := { w.reserve.append bs with reserved := w.reserved }
  -- the field of an open message stays reserved, so it is not taken for the block's own
  have hown : ¬ w.reserved.length < if w.openTag.isSome then 1 else 0 := by
    split
    · rename_i ht
      have := List.length_pos_iff.mpr (hw ht)
      omega
    · omega
  have hcontents : ended.contents = w.contents ++ BigEndian.encode lengthFieldSize 0 ++ bs :=
    contents_reserve_append w bs
  have hsize : (w.reserve.append bs).bytes.size - w.bytes.size - lengthFieldSize = bs.length := by
    rw [← length_contents, ← length_contents, contents_reserve_append]
    simp only [List.length_append, BigEndian.length_encode]
    omega
  have hend : endBlock (w.reserve.append bs) = fillLength w.contents.length bs.length ended := by
    rw [← hsize, length_contents]
    exact if_neg hown
  obtain ⟨w', hfill, hc, hr, ht⟩ :=
    fillLength_contents hcontents (by rw [BigEndian.limit_lengthFieldSize]; exact hbs)
  rw [hend, hfill]
  refine congrArg (EStateM.Result.ok ()) (eq_of_contents ?_ hr ht)
  rw [hc, contents_append, Bytes.field, List.append_assoc]

/-- A block adds its length and its content. -/
theorem Adds.block (hx : Adds x bs) (hbs : bs.length < 2 ^ 32) :
    Adds (do beginBlock; x; endBlock) bs.field := by
  intro w hw
  have hbegin : beginBlock w = .ok () w.reserve := rfl
  rw [bind_of_ok hbegin, bind_of_ok (hx _ (IsBracketed.reserve w)), endBlock_reserve hw hbs]

section

variable (hx : Adds x bs) (ht : w.openTag = none) (hr : w.reserved = [])

include hx ht hr

/-- A message comes down to ending it with its field reserved and its body written. -/
theorem Adds.message_eq (tag : UInt8) :
    ∃ w' : Writer, (do beginMessage tag; x; endMessage : Write Unit) w = endMessage w' ∧
      w'.openTag = some tag ∧ w'.reserved = [(w.contents ++ [tag]).length] ∧
      w'.contents = (w.contents ++ [tag]) ++ BigEndian.encode lengthFieldSize 0 ++ bs := by
  let begun : Writer := { (w.append [tag]).reserve with openTag := some tag }
  have hbegin : beginMessage tag w = .ok () begun := by
    unfold beginMessage
    rw [ht]
  refine ⟨begun.append bs, ?_, rfl, ?_, ?_⟩
  · rw [bind_of_ok hbegin, bind_of_ok (hx begun fun _ => List.cons_ne_nil _ _)]
  · rw [← contents_append, length_contents, ← hr]
    rfl
  · rw [← contents_append, ← contents_reserve_append]
    rfl

/-- A message adds its frame. -/
theorem Adds.message {tag : UInt8} (hfits : (Frame.mk tag bs).Fits) :
    (do beginMessage tag; x; endMessage : Write Unit) w =
      .ok () (w.append (Frame.mk tag bs).toBytes) := by
  obtain ⟨w', heq, ht', hr', hc'⟩ := hx.message_eq ht hr tag
  obtain ⟨ended, hend, hr'', ht'', hc''⟩ := endMessage_of_fits ht' hr' hc'
    (by rw [BigEndian.limit_lengthFieldSize]; exact hfits)
  rw [heq, hend]
  refine congrArg (EStateM.Result.ok ()) (eq_of_contents ?_ ?_ ?_)
  · rw [hc'', contents_append, Frame.toBytes]
    simp
  · rw [hr'', append_reserved, hr]
  · rw [ht'', append_openTag, ht]

/-- A message is refused when its frame does not fit. -/
theorem Adds.message_of_not_fits {tag : UInt8} (hfits : ¬ (Frame.mk tag bs).Fits) :
    ∃ size w',
      (do beginMessage tag; x; endMessage : Write Unit) w = .error (.tooLarge size) w' := by
  obtain ⟨w', heq, ht', hr', hc'⟩ := hx.message_eq ht hr tag
  obtain ⟨ended, hend⟩ := endMessage_of_not_fits ht' hr' hc'
    (by rw [BigEndian.limit_lengthFieldSize]; exact hfits)
  exact ⟨_, ended, heq.trans hend⟩

end

/-- Steps that each add bytes when nothing is open add the bytes of all of them. -/
theorem forM_of_adds {ε α : Type} {f : α → EStateM ε Writer Unit} {g : α → Bytes} {as : List α}
    (h : ∀ a ∈ as, ∀ w : Writer, w.openTag = none → w.reserved = [] →
      f a w = .ok () (w.append (g a)))
    (ht : w.openTag = none) (hr : w.reserved = []) :
    as.forM f w = .ok () (w.append (as.flatMap g)) := by
  induction as generalizing w with
  | nil => exact congrArg (EStateM.Result.ok ()) w.append_nil.symm
  | cons a as ih =>
    have hfirst := h a List.mem_cons_self w ht hr
    have hrest := ih (fun a ha => h a (List.mem_cons_of_mem _ ha)) (w := w.append (g a)) ht hr
    rw [append_append] at hrest
    exact (bind_of_ok hfirst).trans hrest

/-- Draining a writer that has nothing open hands out what was added. -/
theorem take_append (bs : Bytes) : take (append {} bs) = .ok bs {} := by
  have hcontents : contents (append {} bs) = bs := (contents_append _ _).trans (List.nil_append _)
  show EStateM.Result.ok (contents (append {} bs)) _ = _
  rw [hcontents]

end EdgeClient.Writer
