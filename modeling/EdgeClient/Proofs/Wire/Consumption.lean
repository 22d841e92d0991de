import EdgeClient.Proofs.Wire.Fields
import EdgeClient.Scalar
import EdgeClient.Wire.Frame

/-!
# What reads take off a frame

A frame may be read in any way, and a caller may go on after a failure. `Read.Call` is one read of
it and `Frame.afterAll` any number of them, one after the other.

What a call does to the window is fixed by the width of what it reads, be that a number of bytes or
the number that a length field declares. A window that is too short for it is left alone, and the
error names both sizes; else the bytes are taken, also those of a text that turns out not to be
UTF-8 (`Frame.Accounts`). So what is left of a payload is the payload without the bytes that were
paid for, and a frame can be finished when they add up to its length.
-/

namespace EdgeClient

/-- How many bytes of a window a value takes. Where its length field is cut off, all that can be said
is that the field itself is wanted. -/
def Width.sizeIn : Width → Bytes → Nat
  | .fixed size, _ => size
  | .variable, window =>
    if window.length < lengthFieldSize then lengthFieldSize
    else lengthFieldSize + BigEndian.decode (window.take lengthFieldSize)

namespace Read

/-- One read of a window. -/
inductive Call where
  | uint8
  | uint16
  | uint32
  | uint64
  | int16
  | int32
  | int64
  | float32
  | float64
  | bool
  | uuid
  | slice (n : Nat)
  | bytesField
  | stringField
  | split (n : Nat)
  | peekUInt32
  | skip (n : Nat)
  | scalar (t : ScalarType)
  deriving DecidableEq, Repr

namespace Call

/-- What a call answers with. What is split off as a window of its own is the bytes in it. -/
def Answer : Call → Type
  | .uint8 => UInt8
  | .uint16 => UInt16
  | .uint32 | .peekUInt32 => UInt32
  | .uint64 => UInt64
  | .int16 => Int16
  | .int32 => Int32
  | .int64 => Int64
  | .float32 => Binary32
  | .float64 => Binary64
  | .bool => Bool
  | .uuid => Uuid
  | .slice _ | .bytesField | .split _ => Bytes
  | .stringField => String
  | .skip _ => Unit
  | .scalar _ => Scalar

/-- Makes a call. -/
def read : (call : Call) → Read call.Answer
  | .uint8 => Read.uint8
  | .uint16 => Read.uint16
  | .uint32 => Read.uint32
  | .uint64 => Read.uint64
  | .int16 => (do return (← Read.uint16).toInt16 : Read Int16)
  | .int32 => (do return (← Read.uint32).toInt32 : Read Int32)
  | .int64 => (do return (← Read.uint64).toInt64 : Read Int64)
  | .float32 => (do return ⟨← Read.uint32⟩ : Read Binary32)
  | .float64 => (do return ⟨← Read.uint64⟩ : Read Binary64)
  | .bool => Read.bool
  | .uuid => Read.uuid
  | .slice n => Read.slice n
  | .bytesField => Read.bytesField
  | .stringField => Read.stringField
  | .split n => Read.slice n
  | .peekUInt32 => Read.peekUInt32
  | .skip n => Read.skip n
  | .scalar t => t.decode

/-- The width of what a call reads. -/
def width : Call → Width
  | .uint8 | .bool => .fixed 1
  | .uint16 | .int16 => .fixed 2
  | .uint32 | .int32 | .float32 | .peekUInt32 => .fixed 4
  | .uint64 | .int64 | .float64 => .fixed 8
  | .uuid => .fixed 16
  | .slice n | .split n | .skip n => .fixed n
  | .bytesField | .stringField => .variable
  | .scalar t => t.width

/-- How many bytes have to be there for a call. -/
def needs (call : Call) (window : Bytes) : Nat := call.width.sizeIn window

/-- How many bytes a call takes when they are there: the ones it needs, unless it only looks. -/
def takes : Call → Bytes → Nat
  | .peekUInt32, _ => 0
  | call, window => call.needs window

/-- Whether a call reads a text. -/
def IsText (call : Call) : Prop := call = .stringField ∨ call = .scalar .str

/-- Whether what a call reads is the UTF-8 form of a text, if a text is wanted. -/
def Legible (call : Call) (window : Bytes) : Prop :=
  call.IsText → ∃ s, (window.take (call.needs window)).drop lengthFieldSize = Bytes.ofString s

/-- How many bytes a call costs a window, whether there are enough of them or not. -/
def cost (call : Call) (window : Bytes) : Nat :=
  if window.length < call.needs window then 0 else call.takes window

/-- How many bytes calls cost a window, one after the other. -/
def totalCost : List Call → Bytes → Nat
  | [], _ => 0
  | call :: calls, window =>
    call.cost window + totalCost calls (window.drop (call.cost window))

end Call

/-! ## What a read takes -/

section

variable {α β : Type} {x : Read α} {window : Bytes} {size moved : Nat} {legible : Prop}

/-- What a read can come to that wants `size` bytes and takes `moved` of them. -/
inductive Metered (x : Read α) (window : Bytes) (size moved : Nat) (legible : Prop) : Prop where
  | short : window.length < size → x window = .error (.underrun size window.length) window →
      Metered x window size moved legible
  | taken (a : α) : size ≤ window.length → legible → x window = .ok a (window.drop moved) →
      Metered x window size moved legible
  | illegible : size ≤ window.length → ¬ legible →
      x window = .error .invalidUtf8 (window.drop moved) → Metered x window size moved legible

theorem Metered.map (h : Metered x window size moved legible) (g : α → β) :
    Metered (x >>= fun a => pure (g a)) window size moved legible := by
  cases h with
  | short hshort hx => exact .short hshort (bind_of_error hx)
  | taken a hsize hlegible hx => exact .taken (g a) hsize hlegible (bind_of_ok hx)
  | illegible hsize hlegible hx => exact .illegible hsize hlegible (bind_of_error hx)

theorem Metered.congr {other : Prop} (h : Metered x window size moved legible)
    (hl : legible ↔ other) : Metered x window size moved other := by
  rw [← propext hl]
  exact h

theorem metered_slice (n : Nat) (window : Bytes) : Metered (slice n) window n n True := by
  by_cases hn : n ≤ window.length
  · exact .taken (window.take n) hn trivial (slice_of_le hn)
  · exact .short (Nat.lt_of_not_le hn) (slice_of_lt (Nat.lt_of_not_le hn))

theorem metered_word (width : Nat) (window : Bytes) :
    Metered (word width) window width width True :=
  (metered_slice width window).map _

/-- The number in the next four bytes, as a look at it finds it. -/
theorem peekUInt32_of_le (h : 4 ≤ window.length) :
    peekUInt32 window = .ok (UInt32.ofNat (BigEndian.decode (window.take 4))) window := by
  have hread : uint32 window =
      .ok (UInt32.ofNat (BigEndian.decode (window.take 4))) (window.drop 4) :=
    bind_of_ok (bind_of_ok (slice_of_le h))
  rw [peekUInt32, hread]

theorem peekUInt32_of_lt (h : window.length < 4) :
    peekUInt32 window = .error (.underrun 4 window.length) window := by
  have hread : uint32 window = .error (.underrun 4 window.length) window :=
    bind_of_error (bind_of_error (slice_of_lt h))
  rw [peekUInt32, hread]

theorem metered_peekUInt32 (window : Bytes) : Metered peekUInt32 window 4 0 True := by
  by_cases h : 4 ≤ window.length
  · exact .taken _ h trivial (peekUInt32_of_le h)
  · exact .short (Nat.lt_of_not_le h) (peekUInt32_of_lt (Nat.lt_of_not_le h))

/-- Once the length field is there, the field is a slice of the size that it declares. -/
theorem bytesField_eq (h : 4 ≤ window.length) :
    bytesField window = (slice (Width.variable.sizeIn window) >>= fun field =>
      pure (field.drop lengthFieldSize)) window := by
  have hlength : (UInt32.ofNat (BigEndian.decode (window.take 4))).toNat =
      BigEndian.decode (window.take 4) := by
    have hlt := BigEndian.decode_lt (window.take 4)
    rw [List.length_take_of_le h] at hlt
    exact UInt32.toNat_ofNat_of_lt' hlt
  have hsize : Width.variable.sizeIn window = 4 + BigEndian.decode (window.take 4) :=
    if_neg (Nat.not_lt.mpr h)
  unfold bytesField
  rw [bind_of_ok (peekUInt32_of_le h), hlength, hsize]
  rfl

theorem lengthFieldSize_le_sizeIn (window : Bytes) :
    lengthFieldSize ≤ Width.variable.sizeIn window := by
  by_cases h : window.length < lengthFieldSize
  · exact Nat.le_of_eq (if_pos h).symm
  · exact Nat.le_trans (Nat.le_add_right _ _) (Nat.le_of_eq (if_neg h).symm)

theorem bytesField_of_le (h : Width.variable.sizeIn window ≤ window.length) :
    bytesField window = .ok ((window.take (Width.variable.sizeIn window)).drop lengthFieldSize)
      (window.drop (Width.variable.sizeIn window)) := by
  rw [bytesField_eq (Nat.le_trans (lengthFieldSize_le_sizeIn window) h)]
  exact bind_of_ok (slice_of_le h)

theorem bytesField_of_lt (h : window.length < Width.variable.sizeIn window) :
    bytesField window =
      .error (.underrun (Width.variable.sizeIn window) window.length) window := by
  by_cases hlength : 4 ≤ window.length
  · rw [bytesField_eq hlength]
    exact bind_of_error (slice_of_lt h)
  · have hcut := Nat.lt_of_not_le hlength
    have hsize : Width.variable.sizeIn window = 4 := if_pos hcut
    rw [hsize]
    exact bind_of_error (peekUInt32_of_lt hcut)

theorem metered_bytesField (window : Bytes) :
    Metered bytesField window (Width.variable.sizeIn window) (Width.variable.sizeIn window)
      True := by
  by_cases h : Width.variable.sizeIn window ≤ window.length
  · exact .taken _ h trivial (bytesField_of_le h)
  · exact .short (Nat.lt_of_not_le h) (bytesField_of_lt (Nat.lt_of_not_le h))

theorem stringField_of_text {bs rest : Bytes} {s : String} (h : bytesField window = .ok bs rest)
    (hs : bs.toString? = some s) : stringField window = .ok s rest := by
  unfold stringField
  rw [bind_of_ok h, hs]
  rfl

theorem stringField_of_noText {bs rest : Bytes} (h : bytesField window = .ok bs rest)
    (hs : bs.toString? = none) : stringField window = .error .invalidUtf8 rest := by
  unfold stringField
  rw [bind_of_ok h, hs]
  rfl

/-- A text is taken off the window before it is known whether it is one. -/
theorem metered_stringField (window : Bytes) :
    Metered stringField window (Width.variable.sizeIn window) (Width.variable.sizeIn window)
      (∃ s, (window.take (Width.variable.sizeIn window)).drop lengthFieldSize =
        Bytes.ofString s) := by
  by_cases h : Width.variable.sizeIn window ≤ window.length
  · have hbytes := bytesField_of_le h
    cases htext : Bytes.toString?
        ((window.take (Width.variable.sizeIn window)).drop lengthFieldSize) with
    | some s =>
      exact .taken s h ⟨s, (Bytes.ofString_of_toString? htext).symm⟩
        (stringField_of_text hbytes htext)
    | none =>
      refine .illegible h ?_ (stringField_of_noText hbytes htext)
      rintro ⟨s, hs⟩
      rw [hs, Bytes.toString?_ofString] at htext
      exact absurd htext (by simp)
  · exact .short (Nat.lt_of_not_le h) (bind_of_error (bytesField_of_lt (Nat.lt_of_not_le h)))

end

namespace Call

variable {call : Call} {window : Bytes}

theorem metered_of_text {α : Type} {x : Read α} {size moved : Nat} (ht : call.IsText)
    (h : Metered x window size moved
      (∃ s, (window.take (call.needs window)).drop lengthFieldSize = Bytes.ofString s)) :
    Metered x window size moved (call.Legible window) :=
  h.congr ⟨fun hs _ => hs, fun hs => hs ht⟩

theorem metered_of_not_text {α : Type} {x : Read α} {size moved : Nat} (ht : ¬ call.IsText)
    (h : Metered x window size moved True) : Metered x window size moved (call.Legible window) :=
  h.congr ⟨fun _ hc => absurd hc ht, fun _ => trivial⟩

/-- The widths that are laid down for the base types are those that reading their values takes. -/
theorem metered_scalar (t : ScalarType) (window : Bytes) :
    Metered t.decode window (needs (.scalar t) window) (takes (.scalar t) window)
      (Legible (.scalar t) window) := by
  cases t with
  | str => exact metered_of_text (Or.inr rfl) ((metered_stringField window).map _)
  | bytes =>
    exact metered_of_not_text (by simp [IsText]) ((metered_bytesField window).map _)
  | uuid =>
    exact metered_of_not_text (by simp [IsText]) (((metered_slice _ window).map _).map _)
  | int16 | int32 | int64 | float32 | float64 | bool =>
    exact metered_of_not_text (by simp [IsText]) (((metered_word _ window).map _).map _)

/-- A call needs the bytes of its width and takes them, unless it only looks at them. -/
theorem metered (call : Call) (window : Bytes) :
    Metered call.read window (call.needs window) (call.takes window) (call.Legible window) := by
  cases call with
  | stringField => exact metered_of_text (Or.inl rfl) (metered_stringField window)
  | scalar t => exact metered_scalar t window
  | bytesField => exact metered_of_not_text (by simp [IsText]) (metered_bytesField window)
  | peekUInt32 => exact metered_of_not_text (by simp [IsText]) (metered_peekUInt32 window)
  | slice n | split n =>
    exact metered_of_not_text (by simp [IsText]) (metered_slice n window)
  | skip n | uuid =>
    exact metered_of_not_text (by simp [IsText]) ((metered_slice _ window).map _)
  | uint8 | uint16 | uint32 | uint64 | bool =>
    exact metered_of_not_text (by simp [IsText]) ((metered_word _ window).map _)
  | int16 | int32 | int64 | float32 | float64 =>
    exact metered_of_not_text (by simp [IsText]) (((metered_word _ window).map _).map _)

theorem cost_le (call : Call) (window : Bytes) : call.cost window ≤ window.length := by
  unfold cost
  split_ifs with h
  · exact Nat.zero_le _
  · have htakes : call.takes window ≤ call.needs window := by
      cases call <;> simp [takes]
    omega

end Call

end Read

/-! ## Accounting for a frame -/

namespace Frame

/-- What can be said of a call on a frame before it is made. -/
structure Accounts (f : Frame) (call : Read.Call) : Prop where
  /-- It succeeds exactly when its bytes are there, and hold a text where one is wanted. -/
  ok_iff : (∃ answer, (f.read call.read).1 = .ok answer) ↔
    call.needs f.payload ≤ f.payload.length ∧ call.Legible f.payload
  /-- It runs out of bytes exactly when they are not all there, and says how many it needs and how
  many there are. -/
  underrun_iff : ∀ needed remaining,
    (f.read call.read).1 = .error (.underrun needed remaining) ↔
      f.payload.length < call.needs f.payload ∧ needed = call.needs f.payload ∧
        remaining = f.payload.length
  /-- It complains of a text exactly when the bytes are there and hold none. -/
  invalidUtf8_iff : (f.read call.read).1 = .error .invalidUtf8 ↔
    call.needs f.payload ≤ f.payload.length ∧ ¬ call.Legible f.payload
  /-- What it costs comes off the front, and nothing else changes. -/
  after : (f.read call.read).2 = ⟨f.tag, f.payload.drop (call.cost f.payload)⟩

/-- The frame after calls that were made one after the other, whatever came of each. -/
def afterAll (f : Frame) (calls : List Read.Call) : Frame :=
  calls.foldl (fun f call => (f.read call.read).2) f

theorem read_of_ok {α : Type} {f : Frame} {x : Read α} {a : α} {rest : Bytes}
    (h : x f.payload = .ok a rest) : f.read x = (.ok a, { f with payload := rest }) := by
  unfold read
  rw [h]

theorem read_of_error {α : Type} {f : Frame} {x : Read α} {e : WireError} {rest : Bytes}
    (h : x f.payload = .error e rest) : f.read x = (.error e, { f with payload := rest }) := by
  unfold read
  rw [h]

/-- Every call keeps to the account, whatever has been read before. -/
theorem accounts (f : Frame) (call : Read.Call) : f.Accounts call := by
  cases call.metered f.payload with
  | short hshort hx =>
    have hsize : ¬ call.needs f.payload ≤ f.payload.length := Nat.not_le.mpr hshort
    have hcost : call.cost f.payload = 0 := if_pos hshort
    refine ⟨?_, fun needed remaining => ?_, ?_, ?_⟩
    · rw [read_of_error hx]
      exact iff_of_false (by simp) fun h => hsize h.1
    · rw [read_of_error hx, Except.error.injEq, WireError.underrun.injEq, eq_comm,
        eq_comm (b := remaining)]
      exact (and_iff_right hshort).symm
    · rw [read_of_error hx]
      exact iff_of_false (by simp) fun h => hsize h.1
    · rw [read_of_error hx, hcost, List.drop_zero]
  | taken answer hsize hlegible hx =>
    have hshort : ¬ f.payload.length < call.needs f.payload := Nat.not_lt.mpr hsize
    have hcost : call.cost f.payload = call.takes f.payload := if_neg hshort
    refine ⟨?_, fun needed remaining => ?_, ?_, ?_⟩
    · rw [read_of_ok hx]
      exact iff_of_true ⟨answer, rfl⟩ ⟨hsize, hlegible⟩
    · rw [read_of_ok hx]
      exact iff_of_false (by simp) fun h => hshort h.1
    · rw [read_of_ok hx]
      exact iff_of_false (by simp) fun h => h.2 hlegible
    · rw [read_of_ok hx, hcost]
  | illegible hsize hlegible hx =>
    have hshort : ¬ f.payload.length < call.needs f.payload := Nat.not_lt.mpr hsize
    have hcost : call.cost f.payload = call.takes f.payload := if_neg hshort
    refine ⟨?_, fun needed remaining => ?_, ?_, ?_⟩
    · rw [read_of_error hx]
      exact iff_of_false (by simp) fun h => hlegible h.2
    · rw [read_of_error hx]
      exact iff_of_false (by simp) fun h => hshort h.1
    · rw [read_of_error hx]
      exact iff_of_true rfl ⟨hsize, hlegible⟩
    · rw [read_of_error hx, hcost]

/-- Calls leave the payload without the bytes that they cost, of which it had enough. -/
theorem afterAll_eq (f : Frame) (calls : List Read.Call) :
    Read.Call.totalCost calls f.payload ≤ f.payload.length ∧
      f.afterAll calls =
        ⟨f.tag, f.payload.drop (Read.Call.totalCost calls f.payload)⟩ := by
  induction calls generalizing f with
  | nil => exact ⟨Nat.zero_le _, rfl⟩
  | cons call calls ih =>
    have hcost := call.cost_le f.payload
    have hnext : f.afterAll (call :: calls) =
        afterAll ⟨f.tag, f.payload.drop (call.cost f.payload)⟩ calls := by
      rw [← (f.accounts call).after]
      rfl
    obtain ⟨hle, hrest⟩ := ih ⟨f.tag, f.payload.drop (call.cost f.payload)⟩
    simp only [List.length_drop] at hle
    rw [hnext, hrest, Read.Call.totalCost]
    refine ⟨by omega, ?_⟩
    simp only [List.drop_drop]

theorem finish_eq (f : Frame) :
    f.finish = if f.payload.length = 0 then .ok ()
      else .error (.unreadData f.tag f.payload.length) := by
  unfold finish
  cases hp : f.payload with
  | nil => rfl
  | cons b rest => rw [if_neg (by simp)]

/-- However a frame has been read, what is left is the end of its payload, and all that is missing
is what the calls have cost. The next call keeps to the account, and the frame can be finished
exactly when nothing is left over, which is else reported as it is. -/
theorem accounts_afterAll (f : Frame) (calls : List Read.Call) :
    let cost := Read.Call.totalCost calls f.payload
    (f.afterAll calls).tag = f.tag ∧ (f.afterAll calls).payload <:+ f.payload ∧
      (f.afterAll calls).payload.length + cost = f.payload.length ∧
      (∀ call, (f.afterAll calls).Accounts call) ∧
      ((f.afterAll calls).finish = .ok () ↔ cost = f.payload.length) ∧
      ∀ e, (f.afterAll calls).finish = .error e ↔
        cost ≠ f.payload.length ∧ e = .unreadData f.tag (f.payload.length - cost) := by
  intro cost
  obtain ⟨hle, heq⟩ := f.afterAll_eq calls
  have hlen : (f.payload.drop cost).length = f.payload.length - cost := List.length_drop
  rw [finish_eq, heq]
  refine ⟨rfl, List.drop_suffix _ _, ?_, accounts _, ?_, fun e => ?_⟩
  · show (f.payload.drop cost).length + cost = _
    omega
  · show (if (f.payload.drop cost).length = 0 then _ else _) = _ ↔ _
    rw [hlen]
    by_cases h : cost = f.payload.length
    · rw [if_pos (by omega)]
      exact iff_of_true rfl h
    · rw [if_neg (by omega)]
      exact iff_of_false (by simp) h
  · show (if (f.payload.drop cost).length = 0 then _ else _) = _ ↔ _
    rw [hlen]
    by_cases h : cost = f.payload.length
    · rw [if_pos (by omega)]
      exact iff_of_false (by simp) fun hne => hne.1 h
    · rw [if_neg (by omega), Except.error.injEq, eq_comm]
      exact (and_iff_right h).symm

-- the two fields are too long for the window, and the look at it is free
example : afterAll ⟨0x44, [0, 0, 0, 9, 7]⟩ [.bytesField, .peekUInt32, .uint32, .stringField] =
    ⟨0x44, [7]⟩ := by decide

end Frame

end EdgeClient
