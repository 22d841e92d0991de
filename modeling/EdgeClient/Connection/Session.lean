import EdgeClient.Message.Server

/-!
# The state of a connection

What a client knows about a connection: how far setting it up has come, and what the server has
said about itself on the way.
-/

namespace EdgeClient

/-- How far setting up a connection has come. -/
inductive HandshakeState where
  /-- Nothing has been sent. -/
  | start
  /-- The client has made its proposal; the server may answer with another version. -/
  | awaitingServerHandshake
  /-- The version is settled; the server may ask for a proof or say that it is ready. -/
  | awaitingAuthOrReady
  /-- Inside an authentication exchange. -/
  | authenticating
  /-- The connection is set up. -/
  | ready
  /-- Setting up has failed for good. -/
  | failed
  deriving DecidableEq, Repr

/-- The name of a state. -/
def HandshakeState.name : HandshakeState → String
  | .start => "Start"
  | .awaitingServerHandshake => "AwaitingServerHandshake"
  | .awaitingAuthOrReady => "AwaitingAuthOrReady"
  | .authenticating => "Authenticating"
  | .ready => "Ready"
  | .failed => "Failed"

/-- What a client knows about a connection. -/
structure Session where
  /-- How far setting up has come. -/
  state : HandshakeState := .start
  /-- The version that both sides speak, once it is settled. -/
  version : Option ProtocolVersion := none
  /-- The key data that the server has sent. -/
  keyData : Option Bytes := none
  /-- Whether the session is inside a transaction. -/
  transaction : TransactionState := .initial
  deriving DecidableEq, Repr

/-- Whether the connection is set up. -/
def Session.isReady (s : Session) : Bool := s.state == .ready

end EdgeClient
