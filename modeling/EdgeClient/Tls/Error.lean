import EdgeClient.Tls.Security

/-!
# Reasons why a connection cannot be made secure
-/

namespace EdgeClient

/-- Why a connection could not be made secure. -/
inductive TlsError where
  /-- This client does not check servers as loosely as that. -/
  | unsupportedSecurity (level : TlsSecurity)
  /-- The certificates to trust are not well formed. -/
  | invalidCertificate (reason : String)
  /-- The host is not a name that a certificate could be for. -/
  | invalidHostname
  /-- The two sides could not agree. -/
  | handshakeFailed (reason : String)
  deriving DecidableEq, Repr

/-- The wording of an error. -/
def TlsError.message : TlsError → String
  | .unsupportedSecurity level =>
    let name := level.name
    s!"tls_security={name} is not supported by this client"
  | .invalidCertificate reason => "invalid CA certificate: " ++ reason
  | .invalidHostname => "Invalid hostname for TLS"
  | .handshakeFailed reason => "TLS handshake failed: " ++ reason

end EdgeClient
