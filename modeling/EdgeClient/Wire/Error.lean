import EdgeClient.Text.Hex

/-!
# Reasons why framing, reading or writing fails

Each constructor is one cause; `WireError.message` is the only place with their wording. None of
them can be recovered from: after one of them the byte stream is out of step.
-/

namespace EdgeClient

/-- Why wire data could not be framed, read or written. -/
inductive WireError where
  /-- A read needed more bytes than its window holds. -/
  | underrun (needed remaining : Nat)
  /-- A frame was finished with bytes still unread. -/
  | unreadData (tag : UInt8) (remaining : Nat)
  /-- A frame header declares a length smaller than the length field itself. -/
  | invalidLength (tag : UInt8) (length : UInt32)
  /-- The bytes of a text field are not UTF-8. -/
  | invalidUtf8
  /-- A message was begun while another one was open. -/
  | messageAlreadyOpen
  /-- A message or block was ended, or the writer drained, with nothing to match it. -/
  | noOpenMessage
  /-- A message was ended with a block open, or the writer was drained with the message open. -/
  | unterminatedMessage (tag : UInt8)
  /-- A value has too many bytes or entries for its length field. -/
  | tooLarge (size : Nat)
  deriving DecidableEq, Repr

/-- The wording of a wire error. -/
def WireError.message : WireError → String
  | .underrun needed remaining =>
    s!"buffer underrun: needed {needed} bytes, {remaining} remaining"
  | .unreadData tag remaining =>
    let code := Text.hex tag.toNat
    s!"cannot finish: unread data in buffer (message type: 0x{code}, {remaining} bytes left)"
  | .invalidLength tag length =>
    let code := Text.hex tag.toNat
    s!"invalid frame length {length} for message type 0x{code}"
  | .invalidUtf8 => "invalid UTF-8 in string field"
  | .messageAlreadyOpen => "cannot begin message: previous message is still open"
  | .noOpenMessage => "cannot end message: no message is open"
  | .unterminatedMessage tag =>
    let code := Text.hex tag.toNat
    s!"message 0x{code} still has an open length block"
  | .tooLarge size => s!"value of {size} bytes exceeds the u32 length prefix"

end EdgeClient
