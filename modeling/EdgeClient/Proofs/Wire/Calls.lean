import EdgeClient.Proofs.Wire.Framing
import EdgeClient.Proofs.Wire.Patching

/-!
# Calls on a writer

A writer may be used in any way: messages and blocks may be begun and ended in the wrong order, the
writer may be drained or reset in the middle, and a caller may go on after a refusal. `Writer.Call`
is one use of it and `Writer.run` any number of them, one after the other.

`Call.Effect` says once what a call can do. A call that is refused leaves the writer alone; a call
that is accepted adds bytes, puts a reserved field on top of the others, fills in the topmost one or
drops everything. There is one case besides: a length that does not fit costs the field that was to
hold it.
-/

namespace EdgeClient.Writer

/-- A call on a writer. -/
inductive Call where
  | beginMessage (tag : UInt8)
  | endMessage
  | beginBlock
  | endBlock
  | word (width n : Nat)
  | raw (bs : Bytes)
  | bytesField (bs : Bytes)
  | stringField (s : String)
  | take
  | reset
  deriving DecidableEq, Repr

/-- A step that hands out nothing. -/
def silent (x : Write Unit) : Write Bytes := fun w =>
  match x w with
  | .ok _ w => .ok [] w
  | .error e w => .error e w

namespace Call

/-- Makes a call; only draining hands out bytes. -/
def run : Call → Write Bytes
  | .beginMessage tag => silent (Writer.beginMessage tag)
  | .endMessage => silent Writer.endMessage
  | .beginBlock => silent Writer.beginBlock
  | .endBlock => silent Writer.endBlock
  | .word width n => silent (Writer.word width n)
  | .raw bs => silent (Writer.raw bs)
  | .bytesField bs => silent (Writer.bytesField bs)
  | .stringField s => silent (Writer.stringField s)
  | .take => Writer.take
  | .reset => fun w => .ok [] w.reset

/-- The writer after a call, whether it was refused or not. -/
def after (call : Call) (w : Writer) : Writer :=
  match call.run w with
  | .ok _ w | .error _ w => w

theorem after_of_ok {call : Call} {w w' : Writer} {bs : Bytes} (h : call.run w = .ok bs w') :
    call.after w = w' := by
  unfold after
  rw [h]

theorem after_of_error {call : Call} {w w' : Writer} {e : WireError}
    (h : call.run w = .error e w') : call.after w = w' := by
  unfold after
  rw [h]

/-- Whether a call does nothing but add bytes. -/
def IsPush : Call → Prop
  | .word .. | .raw _ | .bytesField _ | .stringField _ => True
  | _ => False

end Call

/-- Makes calls one after the other, whatever comes of each. -/
def run (calls : List Call) : Writer :=
  calls.foldl (fun w call => call.after w) {}

theorem run_append_singleton (calls : List Call) (call : Call) :
    run (calls ++ [call]) = call.after (run calls) := by
  simp [run]

/-! ## What a call can do -/

theorem fillLength_cases (offset length : Nat) (w : Writer) :
    (length < 2 ^ 32 ∧ ∃ w', fillLength offset length w = .ok () w') ∨
      (2 ^ 32 ≤ length ∧ fillLength offset length w = .error (.tooLarge length) w) := by
  unfold fillLength
  rw [BigEndian.limit_lengthFieldSize]
  by_cases hfit : length < 2 ^ 32
  · exact Or.inl ⟨hfit, _, if_pos hfit⟩
  · exact Or.inr ⟨Nat.le_of_not_lt hfit, if_neg hfit⟩

namespace Call

/-- The reasons to refuse a call, which then leaves the writer as it was. -/
inductive Refused (w : Writer) : Call → WireError → Prop where
  | alreadyOpen {tag open' : UInt8} :
    w.openTag = some open' → Refused w (.beginMessage tag) .messageAlreadyOpen
  | notOpen : w.openTag = none → Refused w .endMessage .noOpenMessage
  | blocksOpen {tag : UInt8} :
    w.openTag = some tag → w.reserved.length ≠ 1 → Refused w .endMessage (.unterminatedMessage tag)
  | noBlock :
    w.reserved.length ≤ (if w.openTag.isSome then 1 else 0) → Refused w .endBlock .noOpenMessage
  | tooLong {call : Call} {size : Nat} :
    call.IsPush → 2 ^ 32 ≤ size → Refused w call (.tooLarge size)
  | messageOpen {tag : UInt8} : w.openTag = some tag → Refused w .take (.unterminatedMessage tag)
  | blockOpen : w.openTag = none → w.reserved ≠ [] → Refused w .take .noOpenMessage

/-- What a call can do to a writer. -/
inductive Effect (w : Writer) : Call → EStateM.Result WireError Writer Bytes → Prop where
  | refused {call : Call} {e : WireError} : call.Refused w e → Effect w call (.error e w)
  | beginMessage {tag : UInt8} :
    w.openTag = none →
      Effect w (.beginMessage tag) (.ok [] { (w.append [tag]).reserve with openTag := some tag })
  | endMessage {tag : UInt8} {offset : Nat} {w' : Writer} :
    w.openTag = some tag → w.reserved = [offset] →
    fillLength offset (w.bytes.size - offset) { w with reserved := [] } = .ok () w' →
      Effect w .endMessage (.ok [] { w' with openTag := none })
  | messageTooLarge {tag : UInt8} {offset : Nat} :
    w.openTag = some tag → w.reserved = [offset] → 2 ^ 32 ≤ w.bytes.size - offset →
      Effect w .endMessage (.error (.tooLarge (w.bytes.size - offset)) { w with reserved := [] })
  | beginBlock : Effect w .beginBlock (.ok [] w.reserve)
  | endBlock {offset : Nat} {outer : List Nat} {w' : Writer} :
    w.reserved = offset :: outer → (w.openTag.isSome = true → outer ≠ []) →
    fillLength offset (w.bytes.size - offset - lengthFieldSize) { w with reserved := outer } =
      .ok () w' →
      Effect w .endBlock (.ok [] w')
  | blockTooLarge {offset : Nat} {outer : List Nat} :
    w.reserved = offset :: outer → (w.openTag.isSome = true → outer ≠ []) →
    2 ^ 32 ≤ w.bytes.size - offset - lengthFieldSize →
      Effect w .endBlock (.error (.tooLarge (w.bytes.size - offset - lengthFieldSize))
        { w with reserved := outer })
  | push {call : Call} (bs : Bytes) : call.IsPush → Effect w call (.ok [] (w.append bs))
  | take : w.openTag = none → w.reserved = [] → Effect w .take (.ok w.contents {})
  | reset : Effect w .reset (.ok [] {})

variable {w : Writer}

theorem effect_endMessage (w : Writer) : Effect w .endMessage (Call.run .endMessage w) := by
  obtain ⟨bytes, reserved, openTag⟩ := w
  cases openTag with
  | none => exact .refused (.notOpen rfl)
  | some tag =>
    match reserved with
    | [] => exact .refused (.blocksOpen rfl (by simp))
    | inner :: outer :: rest => exact .refused (.blocksOpen rfl (by simp))
    | [offset] =>
      rcases fillLength_cases offset (bytes.size - offset) ⟨bytes, [], some tag⟩ with
        ⟨-, w', hfill⟩ | ⟨hlarge, hfill⟩
      · have hrun : Call.run .endMessage ⟨bytes, [offset], some tag⟩ =
            .ok [] { w' with openTag := none } := by
          simp only [Call.run, silent, Writer.endMessage, hfill]
        rw [hrun]
        exact .endMessage rfl rfl hfill
      · have hrun : Call.run .endMessage ⟨bytes, [offset], some tag⟩ =
            .error (.tooLarge (bytes.size - offset)) ⟨bytes, [], some tag⟩ := by
          simp only [Call.run, silent, Writer.endMessage, hfill]
        rw [hrun]
        exact .messageTooLarge rfl rfl hlarge

theorem effect_endBlock (w : Writer) : Effect w .endBlock (Call.run .endBlock w) := by
  obtain ⟨bytes, reserved, openTag⟩ := w
  cases reserved with
  | nil => exact .refused (.noBlock (Nat.zero_le _))
  | cons offset outer =>
    by_cases hown : outer.length < if openTag.isSome then 1 else 0
    · have hrun : Call.run .endBlock ⟨bytes, offset :: outer, openTag⟩ =
          .error .noOpenMessage ⟨bytes, offset :: outer, openTag⟩ := by
        simp only [Call.run, silent, Writer.endBlock, if_pos hown]
      rw [hrun]
      exact .refused (.noBlock hown)
    · have houter : openTag.isSome = true → outer ≠ [] := by
        intro ht hnil
        rw [if_pos ht, hnil] at hown
        exact hown Nat.zero_lt_one
      have hend : Call.run .endBlock ⟨bytes, offset :: outer, openTag⟩ =
          silent (fillLength offset (bytes.size - offset - lengthFieldSize))
            ⟨bytes, outer, openTag⟩ := by
        simp only [Call.run, silent, Writer.endBlock, if_neg hown]
      rcases fillLength_cases offset (bytes.size - offset - lengthFieldSize)
        ⟨bytes, outer, openTag⟩ with ⟨-, w', hfill⟩ | ⟨hlarge, hfill⟩
      · rw [hend, silent, hfill]
        exact .endBlock rfl houter hfill
      · rw [hend, silent, hfill]
        exact .blockTooLarge rfl houter hlarge

theorem effect_of_bytesField {call : Call} (hp : call.IsPush) {bs : Bytes}
    (hrun : call.run w = silent (Writer.bytesField bs) w) : Effect w call (call.run w) := by
  rw [hrun, silent, Writer.bytesField, BigEndian.limit_lengthFieldSize]
  by_cases hfit : bs.length < 2 ^ 32
  · rw [if_pos hfit, append_append]
    exact .push _ hp
  · rw [if_neg hfit]
    exact .refused (.tooLong hp (Nat.le_of_not_lt hfit))

/-- Every call does one of the things in the table. -/
theorem effect (call : Call) (w : Writer) : Effect w call (call.run w) := by
  cases call with
  | beginMessage tag =>
    obtain ⟨bytes, reserved, openTag⟩ := w
    cases openTag with
    | none => exact .beginMessage rfl
    | some open' => exact .refused (.alreadyOpen rfl)
  | endMessage => exact effect_endMessage w
  | beginBlock => exact .beginBlock
  | endBlock => exact effect_endBlock w
  | word width n => exact .push _ trivial
  | raw bs => exact .push bs trivial
  | bytesField bs => exact effect_of_bytesField trivial rfl
  | stringField s => exact effect_of_bytesField trivial rfl
  | take =>
    obtain ⟨bytes, reserved, openTag⟩ := w
    cases openTag with
    | some tag => exact .refused (.messageOpen rfl)
    | none =>
      cases reserved with
      | nil => exact .take rfl rfl
      | cons offset outer => exact .refused (.blockOpen rfl (List.cons_ne_nil _ _))
  | reset => exact .reset

end Call

/-! ## The order of the reserved fields -/

/-- Reserved fields, innermost first, lie one behind the other without touching, and the last of
them ends before `size`. -/
def Spaced : (reserved : List Nat) → (size : Nat) → Prop
  | [], _ => True
  | offset :: outer, size => offset + lengthFieldSize ≤ size ∧ Spaced outer offset

theorem Spaced.mono {reserved : List Nat} {size size' : Nat} (h : Spaced reserved size)
    (hle : size ≤ size') : Spaced reserved size' := by
  cases reserved with
  | nil => trivial
  | cons offset outer => exact ⟨Nat.le_trans h.1 hle, h.2⟩

theorem Spaced.of_mem {reserved : List Nat} {size offset : Nat} (h : Spaced reserved size)
    (hmem : offset ∈ reserved) : offset + lengthFieldSize ≤ size := by
  induction reserved generalizing size with
  | nil => exact absurd hmem List.not_mem_nil
  | cons inner outer ih =>
    rcases List.mem_cons.mp hmem with rfl | hmem
    · exact h.1
    · have hle := ih h.2 hmem
      have hlt := h.1
      omega

/-- Whether every reserved field is still there to be filled in. -/
def IsSpaced (w : Writer) : Prop := Spaced w.reserved w.bytes.size

@[simp] theorem size_bytes_append (w : Writer) (bs : Bytes) :
    (w.append bs).bytes.size = w.bytes.size + bs.length := by
  rw [← length_contents, contents_append, List.length_append, length_contents]

@[simp] theorem size_bytes_reserve (w : Writer) :
    w.reserve.bytes.size = w.bytes.size + lengthFieldSize :=
  size_bytes_append w (BigEndian.encode lengthFieldSize 0)

theorem IsSpaced.append {w : Writer} (h : w.IsSpaced) (bs : Bytes) : (w.append bs).IsSpaced := by
  have hle : w.bytes.size ≤ (w.append bs).bytes.size := by simp
  exact h.mono hle

theorem IsSpaced.reserve {w : Writer} (h : w.IsSpaced) : w.reserve.IsSpaced := by
  have hle : w.bytes.size + lengthFieldSize ≤ w.reserve.bytes.size := by simp
  exact ⟨hle, h⟩

/-- A call keeps the reserved fields in order. -/
theorem IsSpaced.after {w : Writer} (h : w.IsSpaced) (call : Call) : (call.after w).IsSpaced := by
  have heffect := call.effect w
  unfold Call.after
  generalize call.run w = result at heffect
  cases heffect with
  | refused | push => first | exact h | exact h.append _
  | beginMessage => exact (h.append _).reserve
  | beginBlock => exact h.reserve
  | take | reset => trivial
  | @endMessage _ offset w' _ hr hfill =>
    unfold IsSpaced at h
    rw [hr] at h
    obtain ⟨-, -, -, -, -, -, -, hreserved, -⟩ :=
      fillLength_ok (w := { w with reserved := [] }) h.1 hfill
    show Spaced w'.reserved _
    rw [hreserved]
    trivial
  | messageTooLarge => trivial
  | @endBlock offset outer w' hr _ hfill =>
    unfold IsSpaced at h
    rw [hr] at h
    obtain ⟨-, -, -, -, -, -, -, hreserved, -⟩ :=
      fillLength_ok (w := { w with reserved := outer }) h.1 hfill
    have hsize := size_of_fillLength (w := { w with reserved := outer }) h.1 hfill
    show Spaced w'.reserved w'.bytes.size
    rw [hreserved, hsize]
    exact h.2.mono (Nat.le_trans (Nat.le_add_right _ _) h.1)
  | @blockTooLarge offset outer hr =>
    unfold IsSpaced at h
    rw [hr] at h
    exact h.2.mono (Nat.le_trans (Nat.le_add_right _ _) h.1)

/-- Whatever calls are made, the reserved fields are in order. -/
theorem isSpaced_run (calls : List Call) : (run calls).IsSpaced := by
  induction calls using List.reverseRecOn with
  | nil => trivial
  | append_singleton calls call ih =>
    rw [run_append_singleton]
    exact ih.after call

end EdgeClient.Writer
