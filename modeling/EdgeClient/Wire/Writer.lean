import EdgeClient.BigEndian
import EdgeClient.Wire.Error

/-!
# Composing outgoing messages

A message is a tag byte, a length field and a body; a block inside a body is a length field and its
content. Lengths are not known when they are due, so a field is reserved as four zero bytes and
filled in when its message or block ends. `Writer.reserved` holds the offsets of the fields that
are still to be filled, innermost first: while a message is open and used as intended, the last
offset belongs to the message and those before it to nested blocks.

A message length counts its own field, a block length does not.

Every operation answers with the writer it leaves behind, also when it fails: a refused call leaves
the writer as it was, unless it is refused because a length does not fit in its field.
-/

namespace EdgeClient

/-- The width of a length field. -/
def lengthFieldSize : Nat := 4

/-- The width of a frame header: a tag byte and a length field. -/
def headerSize : Nat := 1 + lengthFieldSize

/-- Outgoing bytes that are being composed. -/
structure Writer where
  /-- What has been written since the writer was last drained. -/
  bytes : Array UInt8 := #[]
  /-- The offsets of the length fields still to be filled in, innermost first. -/
  reserved : List Nat := []
  /-- The tag of the message that is open. -/
  openTag : Option UInt8 := none
  deriving DecidableEq, Repr

/-- A step on a writer that may be refused. -/
abbrev Write := EStateM WireError Writer

namespace Writer

/-- How many bytes are waiting to be drained. -/
def size (w : Writer) : Nat := w.bytes.size

/-- The bytes that are waiting to be drained. -/
def contents (w : Writer) : Bytes := w.bytes.toList

/-- A writer at rest: nothing pending, no open message and no field to fill in. -/
def IsIdle (w : Writer) : Prop := w = {}

/-! ## Raw steps -/

/-- Adds bytes at the end. -/
def append (w : Writer) (bs : Bytes) : Writer :=
  { w with bytes := w.bytes ++ bs }

/-- Adds a length field that is to be filled in later. -/
def reserve (w : Writer) : Writer :=
  { w with
    bytes := w.bytes ++ BigEndian.encode lengthFieldSize 0
    reserved := w.bytes.size :: w.reserved }

/-- Writes `bs` over the bytes that start at `offset`. -/
def overwrite (target : Array UInt8) (offset : Nat) : Bytes → Array UInt8
  | [] => target
  | b :: bs => overwrite (target.setIfInBounds offset b) (offset + 1) bs

/-- Fills in the length field at `offset`, unless the length does not fit. -/
def fillLength (offset length : Nat) : Write Unit := fun w =>
  if length < BigEndian.limit lengthFieldSize then
    .ok () { w with bytes := overwrite w.bytes offset (BigEndian.encode lengthFieldSize length) }
  else
    .error (.tooLarge length) w

/-! ## Messages and blocks -/

/-- Begins a message: its tag, then a reserved length field. -/
def beginMessage (tag : UInt8) : Write Unit := fun w =>
  match w.openTag with
  | some _ => .error .messageAlreadyOpen w
  | none => .ok () { (w.append [tag]).reserve with openTag := some tag }

/-- Ends the open message, which needs exactly one field to be filled in. -/
def endMessage : Write Unit := fun w =>
  match w.openTag, w.reserved with
  | none, _ => .error .noOpenMessage w
  | some _, [offset] =>
    match fillLength offset (w.bytes.size - offset) { w with reserved := [] } with
    | .ok _ w => .ok () { w with openTag := none }
    | .error e w => .error e w
  | some tag, _ => .error (.unterminatedMessage tag) w

/-- Begins a nested block. -/
def beginBlock : Write Unit := fun w =>
  .ok () w.reserve

/-- Ends the innermost block; the field of an open message does not count as one. -/
def endBlock : Write Unit := fun w =>
  let messages := if w.openTag.isSome then 1 else 0
  match w.reserved with
  | [] => .error .noOpenMessage w
  | offset :: outer =>
    if outer.length < messages then
      .error .noOpenMessage w
    else
      fillLength offset (w.bytes.size - offset - lengthFieldSize) { w with reserved := outer }

/-! ## Values -/

/-- Writes a number in a fixed number of bytes. -/
def word (width n : Nat) : Write Unit := fun w =>
  .ok () (w.append (BigEndian.encode width n))

/-- Writes bytes without a length field. -/
def raw (bs : Bytes) : Write Unit := fun w =>
  .ok () (w.append bs)

/-- Writes bytes behind a field with their number. -/
def bytesField (bs : Bytes) : Write Unit := fun w =>
  if bs.length < BigEndian.limit lengthFieldSize then
    .ok () ((w.append (BigEndian.encode lengthFieldSize bs.length)).append bs)
  else
    .error (.tooLarge bs.length) w

/-- Writes a text as the bytes of its UTF-8 form. -/
def stringField (s : String) : Write Unit :=
  bytesField (Bytes.ofString s)

/-! ## Draining -/

/-- Hands out everything that was written; refused while a message or a block is open. -/
def take : Write Bytes := fun w =>
  match w.openTag, w.reserved with
  | some tag, _ => .error (.unterminatedMessage tag) w
  | none, _ :: _ => .error .noOpenMessage w
  | none, [] => .ok w.contents {}

/-- Drops everything: the bytes, the reserved fields and the open message. -/
def reset (_ : Writer) : Writer := {}

end Writer

end EdgeClient
