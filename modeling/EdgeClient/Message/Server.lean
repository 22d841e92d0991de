import EdgeClient.Message.ServerError
import EdgeClient.Message.Version
import EdgeClient.Wire.Frame

/-!
# Messages from the server

What a server says while a connection is set up. A message is read from a frame and has to use up
its payload; two kinds are exempt. After an error report the exchange is over, so trailing bytes
are not looked at, and a message of unknown type is named without touching its payload.
-/

namespace EdgeClient

/-- Whether the session is inside a transaction. -/
inductive TransactionState where
  /-- There is no transaction. -/
  | notInTransaction
  /-- There is one. -/
  | inTransaction
  /-- There is one, and a command in it failed. -/
  | inFailedTransaction
  deriving DecidableEq, Repr

namespace TransactionState

/-- The state that a byte stands for. -/
def ofByte? (b : UInt8) : Option TransactionState :=
  if b = 0x49 then some .notInTransaction
  else if b = 0x54 then some .inTransaction
  else if b = 0x45 then some .inFailedTransaction
  else none

/-- The byte that stands for a state. -/
def toByte : TransactionState → UInt8
  | .notInTransaction => 0x49
  | .inTransaction => 0x54
  | .inFailedTransaction => 0x45

/-- The state to assume when nothing better is known. -/
def initial : TransactionState := .notInTransaction

/-- The name of a state. -/
def name : TransactionState → String
  | .notInTransaction => "NotInTransaction"
  | .inTransaction => "InTransaction"
  | .inFailedTransaction => "InFailedTransaction"

end TransactionState

/-- What the server asks of, or tells, a client that has to prove who it is. -/
inductive Authentication where
  /-- Nothing more is needed. -/
  | ok
  /-- An exchange is needed, by one of the mechanisms listed. -/
  | sasl (methods : List Bytes)
  /-- A step of the exchange. -/
  | saslContinue (data : String)
  /-- The last step of the exchange. -/
  | saslFinal (data : String)
  /-- A status with no meaning here; what comes with it is dropped. -/
  | other (status : UInt32)
  deriving DecidableEq, Repr

namespace Authentication

/-- The status code of a request on the wire. -/
def status : Authentication → UInt32
  | .ok => 0
  | .sasl _ => 0xa
  | .saslContinue _ => 0xb
  | .saslFinal _ => 0xc
  | .other status => status

end Authentication

/-- How many bytes of key data the server sends. -/
def keyDataSize : Nat := 32

/-- A message from the server. -/
inductive ServerMessage where
  /-- The server proposes a version and names extensions. -/
  | handshake (version : ProtocolVersion) (extensions : List String)
  /-- The server hands out a key that means nothing to this client. -/
  | keyData (key : Bytes)
  /-- The server is ready for commands. -/
  | readyForCommand (state : TransactionState)
  /-- The server speaks about authentication. -/
  | authentication (request : Authentication)
  /-- The server reports an error. -/
  | error (e : ServerError)
  /-- A message of another type. -/
  | unknown (tag : UInt8)
  deriving DecidableEq, Repr

namespace ServerMessage

/-- The tag of `handshake`. -/
def handshakeTag : UInt8 := 0x76
/-- The tag of `keyData`. -/
def keyDataTag : UInt8 := 0x4b
/-- The tag of `readyForCommand`. -/
def readyForCommandTag : UInt8 := 0x5a
/-- The tag of `authentication`. -/
def authenticationTag : UInt8 := 0x52
/-- The tag of `error`. -/
def errorTag : UInt8 := 0x45

/-- The tag of a message. -/
def tag : ServerMessage → UInt8
  | .handshake .. => handshakeTag
  | .keyData _ => keyDataTag
  | .readyForCommand _ => readyForCommandTag
  | .authentication _ => authenticationTag
  | .error _ => errorTag
  | .unknown tag => tag

/-- The name of a message's type. -/
def name : ServerMessage → String
  | .handshake .. => "ServerHandshake"
  | .keyData _ => "ServerKeyData"
  | .readyForCommand _ => "ReadyForCommand"
  | .authentication _ => "Authentication"
  | .error _ => "ErrorResponse"
  | .unknown _ => "Unknown"

/-! ## Payloads -/

/-- Skips one header: a key and a byte string. -/
def skipHeader : Read Unit := do
  let _ ← Read.uint16
  let _ ← Read.bytesField
  return ()

/-- Skips a counted list of headers. -/
def skipHeaders : Read Unit := do
  let count ← Read.uint16
  Read.repeatUnit skipHeader count.toNat

/-- Reads the name of an extension and skips its headers. -/
def readExtension : Read String := do
  let name ← Read.stringField
  skipHeaders
  return name

/-- Reads the list of extensions, which may be missing altogether. -/
def readExtensions : Read (List String) := fun window =>
  if window.isEmpty then
    .ok [] window
  else
    (do let count ← Read.uint16
        Read.replicate count.toNat readExtension : Read (List String)) window

/-- Reads a proposed version and extensions. -/
def readHandshake : Read ServerMessage := do
  let major ← Read.uint16
  let minor ← Read.uint16
  return .handshake ⟨major, minor⟩ (← readExtensions)

/-- Reads key data. -/
def readKeyData : Read ServerMessage := do
  return .keyData (← Read.slice keyDataSize)

/-- Reads headers, which are skipped, and a transaction state; an unknown state counts as the
initial one, since setting up a connection does not depend on it. -/
def readReadyForCommand : Read ServerMessage := do
  skipHeaders
  let byte ← Read.uint8
  return .readyForCommand ((TransactionState.ofByte? byte).getD .initial)

/-- Drops the whole window. -/
def dropAll : Read Unit := fun _ => .ok () []

/-- Reads an authentication request. -/
def readAuthentication : Read ServerMessage := do
  let status ← Read.uint32
  if status = 0 then
    return .authentication .ok
  else if status = 0xa then
    let count ← Read.uint32
    return .authentication (.sasl (← Read.replicate count.toNat Read.bytesField))
  else if status = 0xb then
    return .authentication (.saslContinue (← Read.stringField))
  else if status = 0xc then
    return .authentication (.saslFinal (← Read.stringField))
  else
    dropAll
    return .authentication (.other status)

/-- The read for payloads of a known type that have to be used up. -/
def exactPayload? (tag : UInt8) : Option (Read ServerMessage) :=
  if tag = handshakeTag then some readHandshake
  else if tag = keyDataTag then some readKeyData
  else if tag = readyForCommandTag then some readReadyForCommand
  else if tag = authenticationTag then some readAuthentication
  else none

/-- Reads a message from a frame. -/
def decode (f : Frame) : Except WireError ServerMessage :=
  match exactPayload? f.tag with
  | some payload =>
    match f.read payload with
    | (.ok message, rest) => do
      rest.finish
      return message
    | (.error e, _) => .error e
  | none =>
    if f.tag = errorTag then
      (f.read ServerError.read).1.map .error
    else
      .ok (.unknown f.tag)

end ServerMessage

end EdgeClient
