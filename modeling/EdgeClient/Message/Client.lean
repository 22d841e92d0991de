import EdgeClient.Wire.Writer
import EdgeClient.Message.Version

/-!
# Messages from the client

What a client says while a connection is set up and when it is closed. Each message is written as
one complete frame.
-/

namespace EdgeClient

/-- A message from the client. -/
inductive ClientMessage where
  /-- The first message: a proposed version and connection parameters in order. -/
  | handshake (version : ProtocolVersion) (params : List (String × String))
  /-- Opens an authentication exchange. -/
  | saslInitial (mechanism data : String)
  /-- Every following step of an authentication exchange. -/
  | saslResponse (data : String)
  /-- Says goodbye. -/
  | terminate
  deriving DecidableEq, Repr

namespace ClientMessage

/-- The tag of a message. -/
def tag : ClientMessage → UInt8
  | .handshake .. => 0x56
  | .saslInitial .. => 0x70
  | .saslResponse .. => 0x72
  | .terminate => 0x58

/-- Writes the parameters of a handshake, each a name and a value. -/
def writeParams : List (String × String) → Write Unit
  | [] => return ()
  | (name, value) :: rest => do
    Writer.stringField name
    Writer.stringField value
    writeParams rest

/-- Writes the body of a message. A handshake ends with an empty list of extensions. -/
def writeBody : ClientMessage → Write Unit
  | .handshake version params => do
    Writer.word 2 version.major.toNat
    Writer.word 2 version.minor.toNat
    if params.length < BigEndian.limit 2 then
      Writer.word 2 params.length
      writeParams params
      Writer.word 2 0
    else
      throw (.tooLarge params.length)
  | .saslInitial mechanism data => do
    Writer.stringField mechanism
    Writer.stringField data
  | .saslResponse data => Writer.stringField data
  | .terminate => return ()

/-- Writes a message as one frame. When it fails the frame stays open. -/
def write (message : ClientMessage) : Write Unit := do
  Writer.beginMessage message.tag
  message.writeBody
  Writer.endMessage

/-- The frame of a message, unless it has too many bytes or parameters for one. -/
def toBytes (message : ClientMessage) : Except WireError Bytes :=
  match message.write {} with
  | .ok _ w => .ok w.contents
  | .error e _ => .error e

end ClientMessage

end EdgeClient
