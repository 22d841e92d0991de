import EdgeClient.Proofs.Connection.HandshakeRun
import EdgeClient.Proofs.Connection.Transfers

/-!
# Sent messages make up one stream

A message may not fit into a frame, a transport may stop accepting bytes in the middle of a frame,
and flushing may fail after all of them have been accepted; the user of the connection goes on. What
the transport has accepted then are the first bytes of the frames one after the other, as many as it
had capacity for: a frame that was cut short is not continued, and none is begun behind it.

`Offered` says this about one stretch of bytes. Stretches that are offered one after the other make
up one (`Offered.trans`), so a run of transfers is settled by one transfer and induction.
-/

namespace EdgeClient

/-- How many more bytes are accepted in all; without end if not set. Where none is accepted at a
time none is in all. -/
def Limits.capacity (limits : Limits) : Option Nat :=
  if limits.perWrite = some 0 then some 0 else limits.room

/-- The first of the bytes that are offered, as many as there is capacity for. -/
def Limits.admitted (limits : Limits) (bs : Bytes) : Bytes :=
  match limits.capacity with
  | some count => bs.take count
  | none => bs

theorem Limits.admitted_eq_self_iff (limits : Limits) (bs : Bytes) :
    limits.admitted bs = bs ↔ limits.capacity.all (bs.length ≤ ·) = true := by
  unfold admitted
  cases limits.capacity with
  | none => simp
  | some count =>
    rw [Option.all_some, decide_eq_true_iff]
    refine ⟨fun h => ?_, List.take_of_length_le⟩
    rw [← h]
    exact List.length_take_le count bs

namespace Transport

/-- Bytes have been offered: those have been accepted for which there was capacity. -/
structure Offered (bs : Bytes) (t t' : Transport) : Prop where
  written : t'.written = t.written ++ t.limits.admitted bs
  capacity : t'.limits.capacity = t.limits.capacity.map (· - bs.length)
  flushFailure : t'.limits.flushFailure = t.limits.flushFailure

namespace Offered

variable {bs cs : Bytes} {t t' t'' : Transport}

theorem nothing (t : Transport) : Offered [] t t := by
  refine ⟨?_, ?_, rfl⟩
  · unfold Limits.admitted
    cases t.limits.capacity <;> simp
  · cases t.limits.capacity <;> rfl

theorem trans (h : Offered bs t t') (h' : Offered cs t' t'') : Offered (bs ++ cs) t t'' := by
  have hadmitted :
      t.limits.admitted (bs ++ cs) = t.limits.admitted bs ++ t'.limits.admitted cs := by
    unfold Limits.admitted
    rw [h.capacity]
    cases t.limits.capacity with
    | none => rfl
    | some count => exact List.take_append
  refine ⟨?_, ?_, h'.flushFailure.trans h.flushFailure⟩
  · rw [h'.written, h.written, hadmitted, List.append_assoc]
  · rw [h'.capacity, h.capacity, Option.map_map, List.length_append]
    exact congrArg (Option.map · _) (funext fun count => Nat.sub_sub count _ _)

/-- All bytes have been accepted exactly if there was capacity for them. -/
theorem written_all_iff (h : Offered bs t t') :
    t'.written = t.written ++ bs ↔ t.limits.capacity.all (bs.length ≤ ·) = true := by
  rw [h.written, List.append_cancel_left_eq, Limits.admitted_eq_self_iff]

end Offered

theorem written_eq_trace (t : Transport) : t.written = t.trace.filterMap id := by
  have hbytes : ∀ e : Event, e.trace.filterMap id = e.bytes := by
    intro e
    cases e with
    | wrote bs => simp [Event.trace, Event.bytes]
    | shutdown => rfl
  rw [trace, List.filterMap_flatMap, written]
  simp only [hbytes]

theorem writeAll_of_noProgress {bs : Bytes} {t : Transport} (hp : t.limits.perWrite = some 0)
    (hb : bs ≠ []) : ∃ reason, writeAll bs t = .error reason t := by
  have he : bs.isEmpty = false := List.isEmpty_eq_false_iff.mpr hb
  have hnothing : t.limits.accepted bs = [] := by
    unfold Limits.accepted
    rw [hp]
    exact List.take_zero
  have hwrite : (∃ reason, write bs t = .error reason t) ∨ write bs t = .ok 0 t := by
    unfold write
    split
    · exact Or.inl ⟨_, rfl⟩
    · rw [hnothing]
      exact Or.inr rfl
  rw [writeAll, he]
  rcases hwrite with ⟨reason, hw⟩ | hw
  · rw [hw]
    exact ⟨reason, rfl⟩
  · rw [hw]
    exact ⟨.writeZero, rfl⟩

/-- Writing offers the bytes, and succeeds exactly if there is capacity for all of them. -/
theorem offered_writeAll (bs : Bytes) (t : Transport) :
    Offered bs t (leftBehind (writeAll bs t)) ∧
      ((∃ t', writeAll bs t = .ok () t') ↔ t.limits.capacity.all (bs.length ≤ ·) = true) := by
  by_cases hp : t.limits.perWrite = some 0
  · have hcapacity : t.limits.capacity = some 0 := if_pos hp
    by_cases hb : bs = []
    · subst hb
      have hnil : writeAll [] t = .ok () t := by
        rw [writeAll]
        rfl
      rw [hnil, hcapacity]
      exact ⟨.nothing t, by simp⟩
    · obtain ⟨reason, hw⟩ := writeAll_of_noProgress hp hb
      rw [hw]
      refine ⟨⟨?_, ?_, rfl⟩, ?_⟩
      · simp [leftBehind, Limits.admitted, hcapacity]
      · simp [leftBehind, hcapacity]
      · simp [hcapacity, hb]
  · have hcapacity : t.limits.capacity = t.limits.room := if_neg hp
    have hfitting : t.limits.admitted bs = t.limits.fitting bs := by
      rw [Limits.admitted, hcapacity]
      rfl
    obtain ⟨log, htrace, hw⟩ := writeAll_eq bs hp
    have hoffered : Offered bs t { t with limits := t.limits.less bs.length, log } := by
      refine ⟨?_, ?_, rfl⟩
      · have htrace : ({ t with limits := t.limits.less bs.length, log } : Transport).trace = _ :=
          htrace
        rw [written_eq_trace, htrace, List.filterMap_append, ← written_eq_trace, hfitting]
        simp
      · rw [hcapacity]
        exact if_neg hp
    rw [hw, hcapacity]
    cases t.limits.room.all (bs.length ≤ ·) with
    | true => exact ⟨hoffered, by simp⟩
    | false => exact ⟨hoffered, by simp⟩

end Transport

/-! ## One message -/

namespace Connection

variable {c : Connection}

/-- Transmitting offers the bytes, and succeeds exactly if there is capacity for all of them and
flushing succeeds. -/
theorem offered_transmit (bs : Bytes) (c : Connection) :
    c.transport.Offered bs (leftBehind (transmit bs c)).transport ∧
      ((∃ c', transmit bs c = .ok () c') ↔ c.transport.limits.capacity.all (bs.length ≤ ·) = true ∧
        c.transport.limits.flushFailure = none) := by
  obtain ⟨hoffered, hok⟩ := c.transport.offered_writeAll bs
  rw [← hok]
  unfold transmit
  generalize Transport.writeAll bs c.transport = r at *
  cases r with
  | error e t => exact ⟨hoffered, by simp⟩
  | ok _ t =>
    have hflush := hoffered.flushFailure
    simp only [leftBehind] at hflush
    cases hfails : t.limits.flushFailure with
    | none =>
      simp only [Transport.flush, hfails, ← hflush]
      exact ⟨hoffered, by simp⟩
    | some reason =>
      simp only [Transport.flush, hfails, ← hflush]
      exact ⟨hoffered, by simp⟩

/-- A send offers the frame of its message, if it fits into one. -/
theorem offered_send (hc : c.outbox.IsIdle) (m : ClientMessage) :
    (leftBehind (send m c)).outbox.IsIdle ∧
      c.transport.Offered (ClientMessage.stream ([m].filter (·.Encodable)))
        (leftBehind (send m c)).transport := by
  rcases send_cases (m := m) hc with ⟨he, hs⟩ | ⟨he, size, hs⟩
  · obtain ⟨hoffered, -⟩ := offered_transmit m.frame.toBytes c
    have hstream : ClientMessage.stream ([m].filter (·.Encodable)) = m.frame.toBytes := by
      simp [ClientMessage.stream, he]
    rw [hs, hstream]
    refine ⟨?_, hoffered⟩
    obtain ⟨limits, log, h⟩ := leftBehind_transmit m.frame.toBytes c
    rw [h]
    exact hc
  · have hstream : ClientMessage.stream ([m].filter (·.Encodable)) = [] := by
      simp [ClientMessage.stream, he]
    rw [hs, hstream]
    exact ⟨hc, .nothing _⟩

/-- A send succeeds exactly if the message fits into a frame, the frame is accepted as a whole, and
flushing succeeds. -/
theorem send_ok_iff (hc : c.outbox.IsIdle) (m : ClientMessage) :
    (∃ c', send m c = .ok () c') ↔ m.Encodable ∧
      (leftBehind (send m c)).transport.written = c.transport.written ++ m.frame.toBytes ∧
      c.transport.limits.flushFailure = none := by
  rcases send_cases (m := m) hc with ⟨he, hs⟩ | ⟨he, size, hs⟩
  · obtain ⟨hoffered, hok⟩ := offered_transmit m.frame.toBytes c
    rw [hs, hoffered.written_all_iff, hok]
    exact ⟨fun h => ⟨he, h⟩, fun h => h.2⟩
  · rw [hs]
    exact ⟨fun ⟨c', h⟩ => absurd h (by simp), fun h => absurd h.1 he⟩

end Connection

/-! ## Messages one after the other -/

namespace Transfer

/-- The message that is sent, if one is. -/
def message? : Transfer → Option ClientMessage
  | .send message => some message
  | .recv => none

/-- What transfers have to write: the frames of the messages to be sent that fit into one. -/
def outgoing (transfers : List Transfer) : Bytes :=
  ClientMessage.stream ((transfers.filterMap message?).filter (·.Encodable))

theorem outgoing_append (transfers more : List Transfer) :
    outgoing (transfers ++ more) = outgoing transfers ++ outgoing more := by
  rw [outgoing, List.filterMap_append, List.filter_append]
  exact List.flatMap_append

variable {c : Connection}

theorem offered_after (hc : c.outbox.IsIdle) (transfer : Transfer) :
    (transfer.after c).outbox.IsIdle ∧
      c.transport.Offered (outgoing [transfer]) (transfer.after c).transport := by
  cases transfer with
  | send message => exact Connection.offered_send hc message
  | recv =>
    obtain ⟨inbox, incoming, now, h⟩ := Connection.leftBehind_recv c
    show (leftBehind c.recv).outbox.IsIdle ∧ c.transport.Offered [] (leftBehind c.recv).transport
    rw [h]
    obtain ⟨hwritten, hcapacity, -⟩ := Transport.Offered.nothing c.transport
    exact ⟨hc, hwritten, hcapacity, rfl⟩

theorem offered_afterAll (hc : c.outbox.IsIdle) (transfers : List Transfer) :
    (afterAll transfers c).outbox.IsIdle ∧
      c.transport.Offered (outgoing transfers) (afterAll transfers c).transport := by
  induction transfers generalizing c with
  | nil => exact ⟨hc, .nothing _⟩
  | cons transfer transfers ih =>
    obtain ⟨hidle, hoffered⟩ := offered_after hc transfer
    obtain ⟨hidle', hoffered'⟩ := ih hidle
    have hsplit : outgoing (transfer :: transfers) = outgoing [transfer] ++ outgoing transfers :=
      outgoing_append [transfer] transfers
    rw [hsplit]
    exact ⟨hidle', hoffered.trans hoffered'⟩

end Transfer

/-- Some transfers lead from one connection to another, and their messages are one stream. -/
structure Connection.IsWrittenInOrder (c : Connection) (transfers : List Transfer)
    (c' : Connection) : Prop where
  /-- Nothing is left over from the messages, sent or not. -/
  idle : c'.outbox.IsIdle
  /-- The frames of the messages that fit into one have been accepted one after the other, as far as
  there was capacity for them. -/
  written : c'.transport.written =
    c.transport.written ++ c.transport.limits.admitted (Transfer.outgoing transfers)
  /-- A message that does not fit into a frame is refused, and leaves everything as it is. -/
  refuses : ∀ m, ¬ m.Encodable →
    ∃ size, Connection.send m c' = .error (.failed (.wire (.tooLarge size))) c'
  /-- A message is sent exactly if it fits into a frame, the frame is accepted as a whole, and
  flushing succeeds. -/
  sends : ∀ m, (∃ c'', Connection.send m c' = .ok () c'') ↔ m.Encodable ∧
    (leftBehind (Connection.send m c')).transport.written =
      c'.transport.written ++ m.frame.toBytes ∧
    c.transport.limits.flushFailure = none

/-- Whatever is sent over a connection, and whatever the transport accepts of it, the messages are
one stream. -/
theorem Connection.isWrittenInOrder {c : Connection} (hc : c.outbox.IsIdle)
    (transfers : List Transfer) :
    c.IsWrittenInOrder transfers (Transfer.afterAll transfers c) := by
  obtain ⟨hidle, hoffered⟩ := Transfer.offered_afterAll hc transfers
  refine ⟨hidle, hoffered.written, fun m he => ?_, fun m => ?_⟩
  · rcases Connection.send_cases (m := m) hidle with ⟨he', -⟩ | ⟨-, hsend⟩
    · exact absurd he' he
    · exact hsend
  · rw [Connection.send_ok_iff hidle, hoffered.flushFailure]

/-- A peer that accepts seven bytes, at most three at a time. -/
def narrowPeer : Peer where
  limits := { room := some 7, perWrite := some 3, writeFailure := some .brokenPipe }

/-- A handshake with one parameter too many. -/
def crowdedHandshake : ClientMessage := .handshake .current (List.replicate (2 ^ 16) ("", ""))

/-- The message that does not fit leaves nothing behind, and the one after it is cut short. -/
theorem Connection.isWrittenInOrder_narrowPeer :
    ∃ c c' : Connection, c.outbox.IsIdle ∧
      c.IsWrittenInOrder [.send .terminate, .send crowdedHandshake, .send (.saslResponse "ab")] c' ∧
      c'.transport.written = [0x58, 0, 0, 0, 4, 0x72, 0] := by
  have hidle : ({ transport := .toPeer narrowPeer } : Connection).outbox.IsIdle := rfl
  have horder := isWrittenInOrder hidle
    [.send .terminate, .send crowdedHandshake, .send (.saslResponse "ab")]
  refine ⟨_, _, hidle, horder, ?_⟩
  have hcrowded : ¬ crowdedHandshake.Encodable := by
    rintro ⟨hcount, -⟩
    have hcount : (List.replicate (2 ^ 16) ("", "")).length < 2 ^ 16 := hcount
    rw [List.length_replicate] at hcount
    exact absurd hcount (Nat.lt_irrefl _)
  have hothers : ClientMessage.Encodable .terminate ∧
      ClientMessage.Encodable (.saslResponse "ab") := by
    decide
  have houtgoing : Transfer.outgoing
      [.send .terminate, .send crowdedHandshake, .send (.saslResponse "ab")] =
        ClientMessage.stream [.terminate, .saslResponse "ab"] := by
    simp [Transfer.outgoing, Transfer.message?, hcrowded, hothers]
  rw [horder.written, houtgoing]
  decide

end EdgeClient
