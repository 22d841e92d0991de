import EdgeClient.Text.Quoted

/-!
# How strictly a server is checked

The four levels of checking that settings can ask for, with the names they have in documents.
-/

namespace EdgeClient

/-- How strictly the certificate of a server is checked. -/
inductive TlsSecurity where
  /-- As strictly as this client thinks right, which is `strict`. -/
  | default
  /-- The certificate has to be trusted and to be for the host. -/
  | strict
  /-- The certificate has to be trusted. -/
  | noHostVerification
  /-- Any certificate will do. -/
  | insecure
  deriving DecidableEq, Repr

namespace TlsSecurity

/-- All levels. -/
def all : List TlsSecurity := [.default, .strict, .noHostVerification, .insecure]

/-- The name of a level in documents. -/
def name : TlsSecurity → String
  | .default => "default"
  | .strict => "strict"
  | .noHostVerification => "no_host_verification"
  | .insecure => "insecure"

/-- The name of a level's case. -/
def caseName : TlsSecurity → String
  | .default => "Default"
  | .strict => "Strict"
  | .noHostVerification => "NoHostVerification"
  | .insecure => "Insecure"

/-- The level with the given name. -/
def ofName? (name : String) : Option TlsSecurity :=
  all.find? fun level => level.name == name

/-- What is said about a name that no level has. -/
def unknownMessage (name : String) : String :=
  "unknown tls_security value " ++ Text.quoted name

end TlsSecurity

end EdgeClient
