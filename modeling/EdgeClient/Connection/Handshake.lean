import EdgeClient.Config.Basic
import EdgeClient.Connection.Error
import EdgeClient.Message.Client
import EdgeClient.Scram.Conversation

/-!
# Setting up a connection, message by message

The client proposes a version and names its user and database. Then the server leads: it may
propose another version, hand out key data, ask for an authentication exchange, and in the end says
that it is ready. `Handshake.react` is the whole rule of the client's side: from what has happened
so far and the next message to what the client does. It carries no bytes; whoever runs it reads and
writes the messages.

```text
start → awaitingServerHandshake → awaitingAuthOrReady ⇄ authenticating
                                          ↓
                                        ready
```

There is no version but `ProtocolVersion.current`. A server that proposes another one gets its
connection closed. An authentication exchange ends only after the server's signature has been
verified, and nothing but the exchange's own messages may come in between.
-/

namespace EdgeClient

/-- What the client is waiting for. -/
inductive Phase where
  /-- Any message that may come outside an authentication exchange. -/
  | negotiating
  /-- The first server string of an exchange. -/
  | serverFirst (conversation : Scram.Conversation)
  /-- The last server string of an exchange, or its end. -/
  | serverFinal (conversation : Scram.Conversation)

/-- What has happened while a connection is set up. -/
structure Handshake where
  /-- What the client knows about the connection. -/
  session : Session
  /-- What the client is waiting for. -/
  phase : Phase
  /-- Where the nonces of further exchanges come from. -/
  nonces : NonceSource

/-- What the client does about a message. -/
inductive Move where
  /-- It waits for the next message. -/
  | wait (next : Handshake)
  /-- It sends a message and waits for the next one. -/
  | say (message : ClientMessage) (next : Handshake)
  /-- It is done. -/
  | finish (session : Session)
  /-- It gives up. -/
  | fail (e : ConnectionError) (session : Session)
  /-- It closes the transport and gives up. -/
  | hangUp (e : ConnectionError) (session : Session)

namespace Handshake

/-- The first message of the client. -/
def proposal (config : Config) : ClientMessage :=
  .handshake .current config.handshakeParams

/-- What has happened once the proposal has been sent. -/
def afterProposal (session : Session) (nonces : NonceSource) : Handshake :=
  ⟨{ session with state := .awaitingServerHandshake }, .negotiating, nonces⟩

/-- Gives up because of a message that is not valid now. -/
def unexpected (h : Handshake) (message : ServerMessage) : Move :=
  .fail (.unexpectedMessage message.tag h.session.state) h.session

/-- The session once the version is settled and no exchange is going on. -/
def settled (session : Session) : Session :=
  { session with state := .awaitingAuthOrReady }

/-- Begins an authentication exchange. -/
def beginExchange (config : Config) (h : Handshake) : Move :=
  let session := { h.session with state := .authenticating }
  match config.password with
  | none => .fail (.auth .missingPassword) session
  | some password =>
    match (Scram.Conversation.start config.user password h.nonces).step "" with
    | .ok reply conversation =>
      .say (.saslInitial Scram.mechanism reply)
        ⟨session, .serverFirst conversation, h.nonces.next⟩
    | .error e _ => .fail (.auth e) session

/-- Reacts to a message outside an authentication exchange. -/
def reactNegotiating (config : Config) (h : Handshake) (message : ServerMessage) : Move :=
  match message with
  | .handshake version _ =>
    if h.session.state = .awaitingServerHandshake then
      if version = .current then
        .wait { h with session := settled { h.session with version := some version } }
      else
        .hangUp (.unsupportedVersion version) h.session
    else
      h.unexpected message
  | .keyData key => .wait { h with session := settled { h.session with keyData := some key } }
  | .authentication .ok => .wait { h with session := settled h.session }
  | .authentication (.sasl _) => beginExchange config h
  | .authentication request => .fail (.auth (.unexpectedStatus request.status)) h.session
  | .readyForCommand transaction =>
    .finish { h.session with
      state := .ready
      version := some (h.session.version.getD .current)
      transaction }
  | .error e => .fail (.server e) h.session
  | .unknown _ => h.unexpected message

/-- Reacts to the message that should bring the first server string. -/
def reactServerFirst (h : Handshake) (conversation : Scram.Conversation)
    (message : ServerMessage) : Move :=
  match message with
  | .authentication (.saslContinue data) =>
    match conversation.step data with
    | .ok reply conversation =>
      .say (.saslResponse reply) { h with phase := .serverFinal conversation }
    | .error e _ => .fail (.auth e) h.session
  | .authentication request => .fail (.auth (.unexpectedStatus request.status)) h.session
  | .error e => .fail (.server e) h.session
  | _ => h.unexpected message

/-- Reacts to a message that should bring the last server string or end the exchange. -/
def reactServerFinal (h : Handshake) (conversation : Scram.Conversation)
    (message : ServerMessage) : Move :=
  match message with
  | .authentication (.saslFinal data) =>
    match conversation.step data with
    | .ok _ conversation => .wait { h with phase := .serverFinal conversation }
    | .error e _ => .fail (.auth e) h.session
  | .authentication .ok =>
    if conversation.isDone then
      .wait { h with session := settled h.session, phase := .negotiating }
    else
      .fail (.auth (.malformed .noServerSignature)) h.session
  | .authentication request => .fail (.auth (.unexpectedStatus request.status)) h.session
  | .error e => .fail (.server e) h.session
  | _ => h.unexpected message

/-- Whether a message has the client derive a key, which is work that it has to wait for. -/
def meansWork (h : Handshake) (message : ServerMessage) : Bool :=
  match h.phase, message with
  | .serverFirst _, .authentication (.saslContinue _) => true
  | _, _ => false

/-- What the client does about the next message. -/
def react (config : Config) (h : Handshake) (message : ServerMessage) : Move :=
  match h.phase with
  | .negotiating => reactNegotiating config h message
  | .serverFirst conversation => reactServerFirst h conversation message
  | .serverFinal conversation => reactServerFinal h conversation message

end Handshake

end EdgeClient
