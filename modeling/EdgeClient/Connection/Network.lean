import EdgeClient.Connection.Patience
import EdgeClient.Tls.Authorities
import EdgeClient.Tls.Hostname

/-!
# Opening connections

A network says who answers at an address. Opening a connection means finding the peer, making the
transport secure if the settings ask for it, and running the handshake, all within the time limit of
the settings. This client has no secure transport of its own: after checking the settings for one it
finds that the other side does not speak it.
-/

namespace EdgeClient

/-- Who answers at which address. -/
structure Network where
  /-- The peer at a host and a port. -/
  tcp : (host : String) → (port : UInt16) → Except IoFailure Peer
  /-- The peer at a socket in the file system. -/
  unix : (path : String) → Except IoFailure Peer

/-- Why a connection to a host does not become secure, with the first thing that is in the way:
the level of checking, the certificates to trust, the name of the host, or the peer. -/
def TlsSettings.obstacle (tls : TlsSettings) (host : String) : TlsError :=
  match tls.security with
  | .insecure | .noHostVerification => .unsupportedSecurity tls.security
  | .default | .strict =>
    match tls.authorities.map Tls.readAuthorities with
    | some (.error e) => e
    | some (.ok _) | none =>
      if Tls.isServerName host then
        .handshakeFailed "the peer does not speak TLS"
      else
        .invalidHostname

/-- What came of trying to open a connection. -/
structure Attempt where
  /-- Whether it succeeded. -/
  result : Except ConnectionError Unit
  /-- The connection as it was left, if a peer answered. -/
  connection : Option Connection

namespace Network

/-- Finds the peer that the settings ask for. -/
def dial (network : Network) (config : Config) : Except ConnectionError Peer :=
  match config.unixSocket with
  | some path => (network.unix path).mapError .io
  | none =>
    match network.tcp config.host config.port with
    | .error reason => .error (.io reason)
    | .ok peer =>
      match config.tls with
      | none => .ok peer
      | some tls => .error (.tls (tls.obstacle config.host))

/-- Opens the connection that the settings ask for. -/
def connect (network : Network) (config : Config) (nonces : NonceSource) : Attempt :=
  match network.dial config with
  | .error e => ⟨.error e, none⟩
  | .ok peer =>
    let act : Connection.Action Unit := do
      Connection.settle
      Connection.startup config nonces
    match Connection.within config.connectTimeout act { transport := .toPeer peer } with
    | .ok _ c => ⟨.ok (), some c⟩
    | .error (.failed e) c => ⟨.error e, some c⟩
    | .error .gaveUp c => ⟨.error (.timeout config.connectTimeout), some c⟩

end Network

end EdgeClient
