/-!
# Byte strings

Everything that crosses the connection is a list of bytes. This module has the two questions that
are asked of such a list again and again: does it hold at least `n` bytes, and which text is it the
UTF-8 form of.
-/

namespace EdgeClient

/-- A string of bytes, first byte first. -/
abbrev Bytes := List UInt8

namespace Bytes

/-- Whether `bs` holds at least `n` bytes; no more than `n` of them are looked at. -/
def covers (n : Nat) (bs : Bytes) : Bool :=
  match n with
  | 0 => true
  | n + 1 => !(bs.drop n).isEmpty

/-- What `covers` decides. -/
theorem covers_iff {n : Nat} {bs : Bytes} : bs.covers n = true ↔ n ≤ bs.length := by
  cases n with
  | zero => exact iff_of_true rfl (Nat.zero_le _)
  | succ n =>
    rw [covers, Bool.not_eq_true', List.isEmpty_eq_false_iff, ne_eq, List.drop_eq_nil_iff,
      Nat.not_le, Nat.succ_le_iff]

/-- The UTF-8 form of a text. -/
def ofString (s : String) : Bytes :=
  s.toByteArray.data.toList

/-- The text whose UTF-8 form the bytes are, if they are well formed. -/
def toString? (bs : Bytes) : Option String :=
  String.fromUTF8? ⟨bs.toArray⟩

/-- Reading the UTF-8 form of a text gives the text. -/
@[simp] theorem toString?_ofString (s : String) : toString? (ofString s) = some s := by
  have h : (⟨(ofString s).toArray⟩ : ByteArray) = s.toByteArray := by simp [ofString]
  rw [toString?, h, String.fromUTF8?]
  simp [s.isValidUTF8, String.fromUTF8]

end Bytes

end EdgeClient
