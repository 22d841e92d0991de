import EdgeClient.Proofs.Connection.Receiving
import EdgeClient.Proofs.Connection.Sending

/-!
# Sending and receiving over a connection

A user of a connection sends and receives in any order, and goes on after a failure. A send leaves
alone what a receive depends on, a receive leaves alone what a send depends on, and neither touches
what the client knows about the connection.
-/

namespace EdgeClient

/-- One message sent or one message received. -/
inductive Transfer where
  /-- A message is sent. -/
  | send (message : ClientMessage)
  /-- A message is received. -/
  | recv

namespace Transfer

/-- The connection after a transfer, however it ended. -/
def after : Transfer → Connection → Connection
  | .send message, c => leftBehind (c.send message)
  | .recv, c => leftBehind c.recv

/-- The connection after some transfers, one after the other. -/
def afterAll (transfers : List Transfer) (c : Connection) : Connection :=
  transfers.foldl (fun c transfer => transfer.after c) c

/-- What the receives among some transfers answer, in order. -/
def answers : List Transfer → Connection → List (Except (Stop ConnectionError) ServerMessage)
  | [], _ => []
  | .send message :: rest, c => answers rest (after (.send message) c)
  | .recv :: rest, c => answerOf c.recv :: answers rest (after .recv c)

theorem length_answers_replicate (count : Nat) (c : Connection) :
    (answers (List.replicate count .recv) c).length = count := by
  induction count generalizing c with
  | zero => rfl
  | succ count ih => exact congrArg (· + 1) (ih _)

/-! ## What a transfer leaves alone -/

theorem session_after (transfer : Transfer) (c : Connection) :
    (transfer.after c).session = c.session := by
  cases transfer with
  | send message =>
    obtain ⟨limits, log, outbox, h⟩ := Connection.leftBehind_send message c
    show (leftBehind (c.send message)).session = c.session
    rw [h]
  | recv =>
    obtain ⟨inbox, incoming, now, h⟩ := Connection.leftBehind_recv c
    show (leftBehind c.recv).session = c.session
    rw [h]

/-- What a receive depends on. -/
structure SameReception (c d : Connection) : Prop where
  inbox : d.inbox = c.inbox
  incoming : d.transport.incoming = c.transport.incoming
  ending : d.transport.ending = c.transport.ending
  unprompted : c.transport.IsUnprompted → d.transport.IsUnprompted

theorem sameReception_send (message : ClientMessage) (c : Connection) :
    SameReception c (after (.send message) c) := by
  obtain ⟨limits, log, outbox, h⟩ := Connection.leftBehind_send message c
  show SameReception c (leftBehind (c.send message))
  rw [h]
  exact ⟨rfl, rfl, rfl, fun hc => ⟨hc.deliveries, hc.deadline, hc.stopAt⟩⟩

theorem SameReception.unread {c d : Connection} (h : SameReception c d) : d.unread = c.unread := by
  rw [Connection.unread, Connection.unread, Transport.undelivered, Transport.undelivered, h.inbox,
    h.incoming]

theorem SameReception.failures {c d : Connection} (h : SameReception c d) :
    d.transport.failures = c.transport.failures := by
  rw [Transport.failures, Transport.failures, h.incoming]

end Transfer

end EdgeClient
