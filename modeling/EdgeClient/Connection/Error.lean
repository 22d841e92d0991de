import EdgeClient.Connection.Session
import EdgeClient.Credentials
import EdgeClient.Scram.Error
import EdgeClient.Text.Duration
import EdgeClient.Tls.Error

/-!
# Reasons why a connection fails

Everything that can go wrong between reading settings and closing a connection. Some causes wrap a
more special one, whose wording follows their own.
-/

namespace EdgeClient

/-- Which settings could not be used. -/
inductive ConfigError where
  /-- A credentials file was not accepted. -/
  | credentials (path : String) (reason : CredentialsError)
  deriving DecidableEq, Repr

/-- What a settings error is about. -/
def ConfigError.context : ConfigError → String
  | .credentials path _ => "cannot read credentials at " ++ Text.quoted path

/-- What a settings error says about it. -/
def ConfigError.reason : ConfigError → String
  | .credentials _ reason => reason.message

/-- The wording of a settings error. -/
def ConfigError.message (e : ConfigError) : String :=
  e.context ++ ": " ++ e.reason

/-- Why a connection failed. -/
inductive ConnectionError where
  /-- The transport failed. -/
  | io (reason : IoFailure)
  /-- The bytes of a message are wrong. -/
  | wire (e : WireError)
  /-- The server insists on a version that this client does not speak. -/
  | unsupportedVersion (version : ProtocolVersion)
  /-- A message came that is not valid in the current state. -/
  | unexpectedMessage (tag : UInt8) (state : HandshakeState)
  /-- Authentication failed. -/
  | auth (e : AuthError)
  /-- The server reported an error. -/
  | server (e : ServerError)
  /-- It took longer than it may. -/
  | timeout (budget : Duration)
  /-- The caller lost interest. -/
  | cancelled
  /-- The server closed its side in the middle of an exchange. -/
  | closed
  /-- The operation is not valid in the current state. -/
  | invalidState (state : HandshakeState)
  /-- The settings cannot be used. -/
  | config (e : ConfigError)
  /-- The connection could not be made secure. -/
  | tls (e : TlsError)
  deriving DecidableEq, Repr

namespace ConnectionError

/-- The wording of an error. -/
def message : ConnectionError → String
  | .io reason => "I/O error: " ++ reason.message
  | .wire e => "Protocol error: " ++ e.message
  | .unsupportedVersion version => "unsupported protocol version: " ++ version.toText
  | .unexpectedMessage tag state =>
    let code := Text.hex tag.toNat
    let name := state.name
    s!"unexpected message type: 0x{code} (state: {name})"
  | .auth e => "Auth error: " ++ e.message
  | .server e => "Server error: " ++ e.message
  | .timeout budget => "Connection timeout after " ++ budget.toText
  | .cancelled => "Connection attempt cancelled"
  | .closed => "Connection closed by server"
  | .invalidState state => "invalid handshake state: " ++ state.name
  | .config e => "Configuration error: " ++ e.message
  | .tls e => "TLS error: " ++ e.message

/-- The wording of the cause that an error wraps. -/
def cause? : ConnectionError → Option String
  | .io reason => some reason.message
  | .wire e => some e.message
  | .auth e => some e.message
  | _ => none

/-- What the server reported, if the error is its doing. -/
def serverError? : ConnectionError → Option ServerError
  | .server e => some e
  | _ => none

/-- Whether the client itself gave up. -/
def isGaveUp : ConnectionError → Bool
  | .timeout _ | .cancelled => true
  | _ => false

end ConnectionError

end EdgeClient
