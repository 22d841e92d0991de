import EdgeClient.IoFailure
import EdgeClient.Json.Document
import EdgeClient.Json.Printer
import EdgeClient.Tls.Security

/-!
# Credentials

A credentials document is a JSON object with a few known members: how to reach a server, whom to
log in as, and how strictly to check the server. Other members are ignored. The members are checked
in a fixed order, and the first one that is wrong is reported.
-/

namespace EdgeClient

/-- What is wrong with a member of a credentials document. -/
inductive CredentialsProblem where
  /-- The port is not a whole number from 1 to 65535. -/
  | invalidPort
  /-- There is no user. -/
  | missingUser
  /-- A member that has to be a text is not. -/
  | notAString (name : String)
  /-- A member that has to be a truth value is not. -/
  | notABoolean (name : String)
  /-- The level of checking has no such name. -/
  | unknownSecurity (name : String)
  /-- The level of checking contradicts the older setting for host names. -/
  | contradictingSecurity (verifyHostname : Bool) (name : String)
  deriving DecidableEq, Repr

/-- The wording of a problem. -/
def CredentialsProblem.message : CredentialsProblem → String
  | .invalidPort => "invalid `port` value"
  | .missingUser => "`user` key is required"
  | .notAString name => s!"`{name}` must be a string"
  | .notABoolean name => s!"`{name}` must be a boolean"
  | .unknownSecurity name => TlsSecurity.unknownMessage name
  | .contradictingSecurity verifyHostname name =>
    let raw := Text.quoted name
    s!"values tls_verify_hostname={verifyHostname} and tls_security={raw} are incompatible"

/-- Why a credentials document was not accepted. -/
inductive CredentialsError where
  /-- The file could not be read. -/
  | unreadable (reason : IoFailure)
  /-- The text is not JSON. -/
  | notJson
  /-- The document is not an object. -/
  | notAnObject
  /-- A member is wrong. -/
  | invalid (problem : CredentialsProblem)
  deriving DecidableEq, Repr

/-- The wording of an error. -/
def CredentialsError.message : CredentialsError → String
  | .unreadable reason => reason.message
  | .notJson => "not a JSON document"
  | .notAnObject => "credentials must be a JSON object"
  | .invalid problem => problem.message

/-- How to reach a server and log in. -/
structure Credentials where
  /-- The host, unless it is the usual one; never empty when read from a document. -/
  host : Option String := none
  /-- The port, unless it is the usual one. -/
  port : Option UInt16 := none
  /-- Whom to log in as. -/
  user : String
  /-- The database, unless it is named like the user. -/
  database : Option String := none
  /-- The password, if one is needed. -/
  password : Option String := none
  /-- The certificates to trust. -/
  tlsCertData : Option String := none
  /-- How strictly to check the server. -/
  tlsSecurity : Option TlsSecurity := none
  deriving DecidableEq, Repr

namespace Credentials

/-! ## Reading -/

/-- The members of a document. -/
abbrev Members := List (String × Json)

/-- The port that a number stands for: it has to be whole in floating point. -/
def portOf? : Json → Option UInt16
  | .number n =>
    if n.negative then
      none
    else
      match n.magnitude?.bind Dyadic.whole? with
      | some port => if 1 ≤ port ∧ port ≤ 65535 then some (UInt16.ofNat port) else none
      | none => none
  | _ => none

/-- The port, which may be missing. -/
def readPort (members : Members) : Except CredentialsProblem (Option UInt16) :=
  match Json.get? members "port" with
  | none => .ok none
  | some value =>
    match portOf? value with
    | some port => .ok (some port)
    | none => .error .invalidPort

/-- The user, who has to be there. -/
def readUser (members : Members) : Except CredentialsProblem String :=
  match Json.get? members "user" with
  | some (.string user) => .ok user
  | some _ => .error (.notAString "user")
  | none => .error .missingUser

/-- A text, which may be missing. -/
def readString (members : Members) (name : String) : Except CredentialsProblem (Option String) :=
  match Json.get? members name with
  | some (.string s) => .ok (some s)
  | some _ => .error (.notAString name)
  | none => .ok none

/-- A truth value, which may be missing. -/
def readBool (members : Members) (name : String) : Except CredentialsProblem (Option Bool) :=
  match Json.get? members name with
  | some (.bool b) => .ok (some b)
  | some _ => .error (.notABoolean name)
  | none => .ok none

/-- Whether a level of checking contradicts the older setting for host names. -/
def contradicts (security : TlsSecurity) (verifyHostname : Bool) : Bool :=
  match security with
  | .insecure | .noHostVerification => verifyHostname
  | .strict => !verifyHostname
  | .default => false

/-- The level of checking that the older setting for host names asks for. -/
def securityOfVerify (verifyHostname : Bool) : TlsSecurity :=
  if verifyHostname then .strict else .noHostVerification

/-- The level of checking, from its own member or from the older setting for host names. -/
def readSecurity (members : Members) : Except CredentialsProblem (Option TlsSecurity) := do
  let verify ← readBool members "tls_verify_hostname"
  match ← readString members "tls_security" with
  | none => return verify.map securityOfVerify
  | some name =>
    match TlsSecurity.ofName? name, verify with
    | none, _ => throw (.unknownSecurity name)
    | some security, none => return some security
    | some security, some verify =>
      if contradicts security verify then
        throw (.contradictingSecurity verify name)
      else
        return some security

/-- The credentials that the members of a document give. An empty host counts as none. -/
def ofMembers (members : Members) : Except CredentialsProblem Credentials := do
  let port ← readPort members
  let user ← readUser members
  let host := (← readString members "host").filter fun host => !host.isEmpty
  let database ← readString members "database"
  let password ← readString members "password"
  let tlsCertData ← readString members "tls_cert_data"
  let tlsSecurity ← readSecurity members
  return { host, port, user, database, password, tlsCertData, tlsSecurity }

/-- The credentials that a document gives. -/
def ofText (text : String) : Except CredentialsError Credentials :=
  match Json.read? text with
  | none => .error .notJson
  | some (.object members) => (ofMembers members).mapError .invalid
  | some _ => .error .notAnObject

/-- The credentials in a file, given what reading the file gave. -/
def ofFile (contents : Except IoFailure Bytes) : Except CredentialsError Credentials :=
  match contents with
  | .error reason => .error (.unreadable reason)
  | .ok bs =>
    match bs.toString? with
    | some text => ofText text
    | none => .error (.unreadable .invalidUtf8)

/-! ## Writing -/

/-- A member, if there is a value for it. -/
def member {α : Type} (name : String) (form : α → Json) : Option α → Members
  | some value => [(name, form value)]
  | none => []

/-- The members of the document for given credentials; what is not set is left out. -/
def toMembers (c : Credentials) : Members :=
  member "host" .string c.host ++
  member "port" (fun port => .number (.ofNat port.toNat)) c.port ++
  [("user", .string c.user)] ++
  member "database" .string c.database ++
  member "password" .string c.password ++
  member "tls_cert_data" .string c.tlsCertData ++
  member "tls_security" (fun level => .string level.name) c.tlsSecurity

/-- The document for given credentials. -/
def toText (c : Credentials) : String :=
  (Json.object c.toMembers).toText

end Credentials

end EdgeClient
