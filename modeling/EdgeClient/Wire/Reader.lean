import EdgeClient.BigEndian
import EdgeClient.Uuid
import EdgeClient.Wire.Error

/-!
# Reading from a window of bytes

A window is the unread part of a payload. A read takes bytes off its front and answers with a value
or an error; either way it also says which window is left. Reads check the size first: when the
window is too short they fail with `WireError.underrun` and leave it alone.
-/

namespace EdgeClient

/-- A read: from a window to a value or an error, and the window that is left. -/
abbrev Read := EStateM WireError Bytes

namespace Read

/-- Takes the first `n` bytes. -/
def slice (n : Nat) : Read Bytes := fun window =>
  if window.covers n then
    .ok (window.take n) (window.drop n)
  else
    .error (.underrun n window.length) window

/-- Skips `n` bytes. -/
def skip (n : Nat) : Read Unit := do
  let _ ← slice n
  return ()

/-- Reads a number of a fixed number of bytes. -/
def word (width : Nat) : Read Nat := do
  return BigEndian.decode (← slice width)

/-- Reads an unsigned number of one byte. -/
def uint8 : Read UInt8 := do return UInt8.ofNat (← word 1)

/-- Reads an unsigned number of two bytes. -/
def uint16 : Read UInt16 := do return UInt16.ofNat (← word 2)

/-- Reads an unsigned number of four bytes. -/
def uint32 : Read UInt32 := do return UInt32.ofNat (← word 4)

/-- Reads an unsigned number of eight bytes. -/
def uint64 : Read UInt64 := do return UInt64.ofNat (← word 8)

/-- Reads one byte as a truth value: every byte but zero is true. -/
def bool : Read Bool := do return (← word 1) != 0

/-- Reads an identifier. -/
def uuid : Read Uuid := do return Uuid.ofBytes (← slice Uuid.size)

/-- The number in the next four bytes, which stay in the window. -/
def peekUInt32 : Read UInt32 := fun window =>
  match uint32 window with
  | .ok n _ => .ok n window
  | .error e _ => .error e window

/-- Reads bytes behind a field with their number. -/
def bytesField : Read Bytes := do
  let length ← peekUInt32
  let field ← slice (4 + length.toNat)
  return field.drop 4

/-- Reads a text; a field whose bytes are not UTF-8 is consumed all the same. -/
def stringField : Read String := do
  let bs ← bytesField
  match bs.toString? with
  | some s => return s
  | none => throw .invalidUtf8

/-- Runs `entry` the given number of times, stopping at the first failure. -/
def repeatUnit (entry : Read Unit) : Nat → Read Unit
  | 0 => return ()
  | count + 1 => do
    entry
    repeatUnit entry count

/-- Reads `count` entries onto those already read, the latest first. -/
def repeatOnto {α : Type} (entry : Read α) : (count : Nat) → (read : List α) → Read (List α)
  | 0, read => return read.reverse
  | count + 1, read => do
    let value ← entry
    repeatOnto entry count (value :: read)

/-- Reads `count` entries one after the other, stopping at the first failure. -/
def replicate {α : Type} (count : Nat) (entry : Read α) : Read (List α) :=
  repeatOnto entry count []

end Read

end EdgeClient
