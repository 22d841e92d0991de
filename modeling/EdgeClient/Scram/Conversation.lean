import EdgeClient.Crypto.Hmac
import EdgeClient.Scram.Attributes
import EdgeClient.Scram.Nonce
import EdgeClient.Text.Quoted

/-!
# The client's side of an authentication exchange

SCRAM with SHA-256 and without channel binding (RFC 5802, RFC 7677). The client names its user and
a nonce; the server answers with a longer nonce, a salt and an iteration count; the client proves
that it knows the password, and the server proves the same with its signature. Each step takes a
server string and gives the string to send back. The conversation talks to nobody: whoever holds it
carries the strings.

A step that fails leaves the conversation as it was.
-/

namespace EdgeClient.Scram

/-- What the client keeps of its proof to check the server's signature. -/
structure Secrets where
  /-- The key derived from the password. -/
  saltedPassword : Bytes
  /-- What both sides have said, as far as they sign it. -/
  authMessage : Chars
  deriving DecidableEq, Repr

/-- How far a conversation has come: its step and, from the proof on, the salted password and the
signed text.

These three are one value because they change together. Both secrets are set in the step that sends
the proof, when nothing in it can fail any more, and they stay from then on. So a conversation that
waits for the last server string, or is done, has both of them, and before its proof it has neither.
To check the last server string without secrets would be an error of its own, that the exchange is
over (`AuthError.finished`); no conversation comes to that, and the error is left to the steps after
the last one. -/
inductive Stage where
  /-- Nothing has been said. -/
  | initial
  /-- The user has been named. -/
  | awaitingServerFirst
  /-- The proof has been sent. -/
  | awaitingServerFinal (secrets : Secrets)
  /-- The server's signature has been verified. -/
  | done (secrets : Secrets)
  deriving DecidableEq, Repr

/-- The name of a stage. -/
def Stage.name : Stage → String
  | .initial => "Initial"
  | .awaitingServerFirst => "AwaitingServerFirst"
  | .awaitingServerFinal _ => "AwaitingServerFinal"
  | .done _ => "Done"

/-- The client's side of one exchange. -/
structure Conversation where
  /-- The user that is to be authenticated. -/
  user : String
  /-- The user's password. -/
  password : String
  /-- The random characters that the client contributes. -/
  clientNonce : Chars
  /-- How far the exchange has come. -/
  stage : Stage := .initial
  deriving DecidableEq, Repr

/-- The name of the mechanism. -/
def mechanism : String := "SCRAM-SHA-256"

/-- What precedes the first client string proper: no channel binding, no other identity. -/
def bindingHeader : Chars := "n,,".toList

/-! ## The strings that the client says -/

/-- The first client string without its header. -/
def clientFirstBare (user : String) (clientNonce : Chars) : Chars :=
  "n=".toList ++ escape user.toList ++ ",r=".toList ++ clientNonce

/-- The first client string. -/
def clientFirst (user : String) (clientNonce : Chars) : Chars :=
  bindingHeader ++ clientFirstBare user clientNonce

/-- The last client string without its proof: the header in base 64, and the combined nonce. -/
def clientFinalWithoutProof (nonce : Chars) : Chars :=
  "c=biws,r=".toList ++ nonce

/-- What both sides sign: the first strings of both and the last client string without its proof. -/
def authMessage (clientFirstBare serverFirst clientFinalWithoutProof : Chars) : Chars :=
  clientFirstBare ++ ',' :: serverFirst ++ ',' :: clientFinalWithoutProof

/-! ## Proof and signature -/

/-- The UTF-8 form of a list of characters. -/
def utf8 (cs : Chars) : Bytes := Bytes.ofString (String.ofList cs)

/-- The key derived from a password for a challenge. -/
def saltedPassword (password : String) (challenge : Challenge) : Bytes :=
  pbkdf2 (Bytes.ofString password) challenge.salt challenge.iterations

/-- The key that the client has to know. -/
def clientKey (saltedPassword : Bytes) : Bytes :=
  hmac saltedPassword (Bytes.ofString "Client Key")

/-- What the server stores to recognise the client's key. -/
def storedKey (clientKey : Bytes) : Bytes :=
  Sha256.digest clientKey

/-- The client's key, hidden under a signature of what has been said. -/
def clientProof (saltedPassword : Bytes) (authMessage : Chars) : Bytes :=
  let key := clientKey saltedPassword
  key.xor (hmac (storedKey key) (utf8 authMessage))

/-- The server's signature of what has been said. -/
def serverSignature (saltedPassword : Bytes) (authMessage : Chars) : Bytes :=
  hmac (hmac saltedPassword (Bytes.ofString "Server Key")) (utf8 authMessage)

/-! ## Steps -/

namespace Conversation

/-- A new conversation, with the nonce that the source gives next. -/
def start (user password : String) (source : NonceSource) : Conversation :=
  { user, password, clientNonce := source.nonce }

/-- Whether the server's signature has been verified. -/
def isDone (c : Conversation) : Bool :=
  match c.stage with
  | .done _ => true
  | _ => false

/-- What the client keeps to check the server's signature, once it has sent its proof. -/
def secrets? (c : Conversation) : Option Secrets :=
  match c.stage with
  | .awaitingServerFinal secrets => some secrets
  | .done secrets => some secrets
  | _ => none

/-- The first client string of a conversation without its header. -/
def firstBare (c : Conversation) : Chars := clientFirstBare c.user c.clientNonce

/-- Answers the first server string: what to keep, and the last client string. -/
def answer (c : Conversation) (serverFirst : Chars) : Except AuthError (Secrets × Chars) :=
  match readServerFirst c.clientNonce serverFirst with
  | .error e => .error e
  | .ok challenge =>
    let key := saltedPassword c.password challenge
    let final := clientFinalWithoutProof challenge.nonce
    let message := authMessage c.firstBare serverFirst final
    let proof := Base64.encode (clientProof key message)
    .ok (⟨key, message⟩, final ++ ",p=".toList ++ proof)

/-- Checks the last server string. -/
def verify (secrets : Secrets) (serverFinal : Chars) : Except AuthError Unit :=
  match readServerFinal serverFinal with
  | .error e => .error e
  | .ok signature =>
    if signature = serverSignature secrets.saltedPassword secrets.authMessage then
      .ok ()
    else
      .error .verificationFailed

/-- Takes the next server string and gives the string to answer with. The very first step needs no
server string and ignores the one given; the last answer is empty. -/
def step (text : String) : EStateM AuthError Conversation String := fun c =>
  match c.stage with
  | .initial =>
    .ok (String.ofList (clientFirst c.user c.clientNonce)) { c with stage := .awaitingServerFirst }
  | .awaitingServerFirst =>
    match c.answer text.toList with
    | .ok (secrets, reply) =>
      .ok (String.ofList reply) { c with stage := .awaitingServerFinal secrets }
    | .error e => .error e c
  | .awaitingServerFinal secrets =>
    match verify secrets text.toList with
    | .ok _ => .ok "" { c with stage := .done secrets }
    | .error e => .error e c
  | .done _ => .error .finished c

/-- A description that shows neither password nor nonce. -/
def describe (c : Conversation) : String :=
  let user := Text.quoted c.user
  let stage := c.stage.name
  s!"ScramConversation \x7b username: {user}, step: {stage}, .. \x7d"

end Conversation

end EdgeClient.Scram
