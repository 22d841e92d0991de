import EdgeClient.Connection.Handshake
import EdgeClient.Connection.Transport

/-!
# Connections

A connection is a transport with a buffer for either direction and what the client knows about the
other side. Messages are sent one at a time and written out at once; received bytes are kept until
they make up a message. `startup` runs the handshake of `Handshake.react` over that.

Every operation answers with the connection it leaves behind, also when it fails or gives up
waiting.
-/

namespace EdgeClient

/-- A connection to a server. -/
structure Connection where
  /-- How bytes get to the server and back. -/
  transport : Transport
  /-- Received bytes that no message has been read from yet. -/
  inbox : Inbox := {}
  /-- Where outgoing messages are composed. -/
  outbox : Writer := {}
  /-- What the client knows about the connection. -/
  session : Session := {}
  deriving DecidableEq, Repr

/-- An operation on a connection. -/
abbrev Connection.Action := EStateM (Stop ConnectionError) Connection

namespace Connection

/-- The bytes of messages that have not been read, received or still on their way. -/
def unread (c : Connection) : Bytes :=
  c.inbox.pending ++ c.transport.undelivered

/-! ## Sending -/

/-- Writes bytes to the transport and makes sure that they leave. -/
def transmit (bs : Bytes) : Action Unit := fun c =>
  match Transport.writeAll bs c.transport with
  | .error e t => .error (.failed (.io e)) { c with transport := t }
  | .ok _ t =>
    match Transport.flush t with
    | .error e t => .error (.failed (.io e)) { c with transport := t }
    | .ok _ t => .ok () { c with transport := t }

/-- Writes out all that has been composed, if there is anything. -/
def flush : Action Unit := fun c =>
  if c.outbox.bytes.isEmpty then
    .ok () c
  else
    match Writer.take c.outbox with
    | .error e w => .error (.failed (.wire e)) { c with outbox := w }
    | .ok bs w => transmit bs { c with outbox := w }

/-- Sends a message. A message that cannot be composed leaves nothing behind. -/
def send (message : ClientMessage) : Action Unit := fun c =>
  match message.write c.outbox with
  | .error e w => .error (.failed (.wire e)) { c with outbox := w.reset }
  | .ok _ w => flush { c with outbox := w }

/-! ## Receiving -/

/-- Receives the next message, reading from the transport as long as there is no complete frame. -/
def recv : Action ServerMessage := fun c =>
  match c.inbox.next? with
  | .error e => .error (.failed (.wire e)) c
  | .ok (some (frame, inbox)) =>
    match ServerMessage.decode frame with
    | .ok message => .ok message { c with inbox }
    | .error e => .error (.failed (.wire e)) { c with inbox }
  | .ok none =>
    match _h : Transport.read c.transport with
    | .error (.failed e) t => .error (.failed (.io e)) { c with transport := t }
    | .error .gaveUp t => .error .gaveUp { c with transport := t }
    | .ok [] t => .error (.failed .closed) { c with transport := t }
    | .ok (b :: bs) t => recv { c with transport := t, inbox := c.inbox.feed (b :: bs) }
termination_by c => c.transport.incoming.length
decreasing_by exact Transport.length_of_read (by assumption)

/-- A message that is received is taken off the unread bytes. -/
theorem length_of_recv {c c' : Connection} {message : ServerMessage}
    (h : recv c = .ok message c') : c'.unread.length < c.unread.length := by
  fun_induction recv c with
  | case1 | case3 | case4 | case5 | case6 => simp at h
  | case2 c frame inbox hn message' hd =>
    simp only [EStateM.Result.ok.injEq] at h
    obtain ⟨-, rfl⟩ := h
    have := Inbox.length_of_next? hn
    simp only [unread, List.length_append]
    omega
  | case7 c hn b bs t hr ih =>
    have hu := congrArg List.length (Transport.undelivered_of_read hr)
    have := ih h
    simp only [unread, Inbox.feed, List.length_append] at *
    omega

/-! ## What sending leaves alone -/

/-- Sending takes nothing off the unread bytes. -/
theorem unread_of_transmit {bs : Bytes} {c c' : Connection} (h : transmit bs c = .ok () c') :
    c'.unread = c.unread := by
  unfold transmit at h
  split at h
  · simp at h
  · rename_i t ht
    have := Transport.incoming_of_writeAll ht
    unfold Transport.flush at h
    split at h
    · simp at h
    · rename_i h'
      split at h'
      · simp at h'
      · simp only [EStateM.Result.ok.injEq] at h h'
        obtain ⟨-, rfl⟩ := h
        obtain ⟨-, rfl⟩ := h'
        simp_all [unread, Transport.undelivered]

/-- Sending takes nothing off the unread bytes. -/
theorem unread_of_send {message : ClientMessage} {c c' : Connection}
    (h : send message c = .ok () c') : c'.unread = c.unread := by
  unfold send at h
  split at h
  · simp at h
  · unfold flush at h
    split at h
    · simp only [EStateM.Result.ok.injEq] at h
      obtain ⟨-, rfl⟩ := h
      rfl
    · split at h
      · simp at h
      · have := unread_of_transmit h
        exact this

/-! ## Setting up -/

/-- Whether the client waits for the work that a message means. Such work takes no time on the
clock of the transport, but a client at its deadline does not wait for it. -/
def toleratesWork (c : Connection) (handshake : Handshake) (message : ServerMessage) : Bool :=
  !handshake.meansWork message || c.transport.isPatient

/-- Goes on with a handshake until it ends. -/
def negotiate (config : Config) (handshake : Handshake) : Action Unit := fun c =>
  match _hr : recv { c with session := handshake.session } with
  | .error e c => .error e c
  | .ok message c =>
    if !c.toleratesWork handshake message then .error .gaveUp c else
    match handshake.react config message with
    | .wait next => negotiate config next c
    | .say reply next =>
      match _hs : send reply { c with session := next.session } with
      | .error e c => .error e c
      | .ok _ c => negotiate config next c
    | .finish session => .ok () { c with session }
    | .fail e session => .error (.failed e) { c with session }
    | .hangUp e session =>
      match Transport.shutdown c.transport with
      | .ok _ t | .error _ t => .error (.failed e) { c with transport := t, session }
termination_by c => c.unread.length
decreasing_by
  · have := length_of_recv _hr
    exact this
  · have := length_of_recv _hr
    exact Nat.lt_of_le_of_lt (Nat.le_of_eq (congrArg List.length (unread_of_send _hs))) this

/-- Sends the proposal and runs the handshake. -/
def runHandshake (config : Config) (nonces : NonceSource) : Action Unit := fun c =>
  match send (Handshake.proposal config) c with
  | .error e c => .error e c
  | .ok _ c => negotiate config (Handshake.afterProposal c.session nonces) c

/-- Sets up a new connection. It can be done once; a failure is final. -/
def startup (config : Config) (nonces : NonceSource) : Action Unit := fun c =>
  if c.session.state = .start then
    match runHandshake config nonces c with
    | .ok _ c => .ok () c
    | .error (.failed e) c =>
      .error (.failed e) { c with session := { c.session with state := .failed } }
    | .error .gaveUp c => .error .gaveUp c
  else
    .error (.failed (.invalidState c.session.state)) c

/-- Says goodbye and closes the transport. -/
def close : Action Unit := fun c =>
  match send .terminate c with
  | .error e c => .error e c
  | .ok _ c =>
    match Transport.shutdown c.transport with
    | .ok _ t => .ok () { c with transport := t }
    | .error e t => .error (.failed (.io e)) { c with transport := t }

end Connection

end EdgeClient
