import EdgeClient.Proofs.Connection.Acceptance

/-!
# How bytes are delivered does not matter

Two connections are `Alike` when they differ only in how the bytes still to come are cut up and
delayed, and in how many bytes a write accepts at a time. Every operation takes alike connections to
alike ones and answers the same over both: a receive, because over a calm transport it depends on
the unread bytes alone; a send, because a transport accepts all bytes there is room for; and so each
round of the handshake's loop, the whole loop, and a start.
-/

namespace EdgeClient

/-- Two limits that differ only in how many bytes a write accepts at a time, at least one. -/
structure Limits.Alike (limits limits' : Limits) : Prop where
  progress : limits.perWrite ≠ some 0 ∧ limits'.perWrite ≠ some 0
  room : limits.room = limits'.room
  writeFailure : limits.writeFailure = limits'.writeFailure
  flushFailure : limits.flushFailure = limits'.flushFailure
  shutdownFailure : limits.shutdownFailure = limits'.shutdownFailure

namespace Transport

/-- Two transports over which writing comes to the same: they may differ in how many bytes a write
accepts at a time, and in all that the peer is still going to do. -/
structure WritesAlike (t u : Transport) : Prop where
  limits : t.limits.Alike u.limits
  /-- The same has been done so far. -/
  trace : t.trace = u.trace

/-- Such transports become others, and nothing has changed but the limits and the log. -/
def StaysWritingAlike (t u t' u' : Transport) : Prop :=
  t'.WritesAlike u' ∧ (∃ limits log, t' = { t with limits, log }) ∧
    ∃ limits log, u' = { u with limits, log }

namespace WritesAlike

variable {t u : Transport}

theorem stays (h : WritesAlike t u) : StaysWritingAlike t u t u :=
  ⟨h, ⟨_, _, rfl⟩, _, _, rfl⟩

theorem writeAll (h : WritesAlike t u) (bs : Bytes) :
    SameOutcome (StaysWritingAlike t u) (writeAll bs t) (writeAll bs u) := by
  obtain ⟨log, htrace, ht⟩ := writeAll_eq bs h.limits.progress.1
  obtain ⟨log', htrace', hu⟩ := writeAll_eq bs h.limits.progress.2
  have hfitting : t.limits.fitting bs = u.limits.fitting bs := by
    rw [Limits.fitting, Limits.fitting, h.limits.room]
  have hless : (t.limits.less bs.length).room = (u.limits.less bs.length).room := by
    rw [Limits.less, Limits.less, h.limits.room]
  have hafter : WritesAlike { t with limits := t.limits.less bs.length, log }
      { u with limits := u.limits.less bs.length, log := log' } := by
    refine ⟨{ h.limits with room := hless }, ?_⟩
    rw [h.trace, hfitting, ← htrace'] at htrace
    exact htrace
  rw [ht, hu, h.limits.room, h.limits.writeFailure]
  split
  · exact .ok ⟨hafter, ⟨_, _, rfl⟩, _, _, rfl⟩
  · exact .error ⟨hafter, ⟨_, _, rfl⟩, _, _, rfl⟩

theorem flush (h : WritesAlike t u) :
    SameOutcome (StaysWritingAlike t u) (flush t) (flush u) := by
  unfold Transport.flush
  rw [h.limits.flushFailure]
  cases u.limits.flushFailure with
  | none => exact .ok h.stays
  | some reason => exact .error h.stays

theorem log_shutdown (h : WritesAlike t u) :
    StaysWritingAlike t u { t with log := .shutdown :: t.log }
      { u with log := .shutdown :: u.log } := by
  refine ⟨⟨h.limits, ?_⟩, ⟨_, _, rfl⟩, _, _, rfl⟩
  rw [trace_cons, trace_cons, h.trace]

end WritesAlike

/-- Two transports that differ only in how what is still to come is cut up and delayed, and in how
many bytes a write accepts at a time. -/
structure Alike (t u : Transport) : Prop where
  calm : t.IsCalm ∧ u.IsCalm
  ending : t.ending = u.ending
  limits : t.limits.Alike u.limits
  /-- The same has been done so far. -/
  trace : t.trace = u.trace

/-- Alike transports become others, and what is still to come stays as it is. -/
def StaysAlike (t u t' u' : Transport) : Prop :=
  t'.Alike u' ∧ t'.incoming = t.incoming ∧ u'.incoming = u.incoming

namespace Alike

variable {t u : Transport}

theorem writesAlike (h : Alike t u) : WritesAlike t u := ⟨h.limits, h.trace⟩

theorem stays {t' u' : Transport} (h : Alike t u) (hw : StaysWritingAlike t u t' u') :
    StaysAlike t u t' u' := by
  obtain ⟨hafter, ⟨limits, log, rfl⟩, limits', log', rfl⟩ := hw
  exact ⟨⟨⟨h.calm.1.withLog _ _, h.calm.2.withLog _ _⟩, h.ending, hafter.limits, hafter.trace⟩,
    rfl, rfl⟩

end Alike

end Transport

/-- Two peers that send the same bytes, cut up and delayed in two ways, and then end alike; one may
accept more bytes at a time than the other. -/
structure Peer.DeliversLike (peer peer' : Peer) : Prop where
  /-- Nothing fails on the way, and nothing waits for the client. -/
  calm : (∀ d ∈ peer.deliveries, d.IsCalm) ∧ ∀ d ∈ peer'.deliveries, d.IsCalm
  sends : peer.deliveries.flatMap Delivery.chunk = peer'.deliveries.flatMap Delivery.chunk
  ending : peer.ending = peer'.ending
  limits : peer.limits.Alike peer'.limits

namespace Connection

/-- Transmitting over transports that write alike comes to the same. -/
theorem transmit_of_writesAlike {c d : Connection} (h : c.transport.WritesAlike d.transport)
    (bs : Bytes) :
    SameOutcome (fun c' d' => ∃ t u, Transport.StaysWritingAlike c.transport d.transport t u ∧
        c' = { c with transport := t } ∧ d' = { d with transport := u })
      (transmit bs c) (transmit bs d) := by
  unfold transmit
  have hwrite := h.writeAll bs
  generalize Transport.writeAll bs c.transport = r at *
  generalize Transport.writeAll bs d.transport = r' at *
  cases hwrite with
  | error ht => exact .error ⟨_, _, ht, rfl, rfl⟩
  | @ok _ t u ht =>
    have hflush := ht.1.flush
    dsimp only
    rw [← Transport.leftBehind_flush t, ← Transport.leftBehind_flush u] at ht
    generalize Transport.flush t = r at *
    generalize Transport.flush u = r' at *
    cases hflush with
    | error => exact .error ⟨_, _, ht, rfl, rfl⟩
    | ok => exact .ok ⟨_, _, ht, rfl, rfl⟩

/-- Two connections that differ only in how bytes get to the server and back. -/
structure Alike (c d : Connection) : Prop where
  transport : c.transport.Alike d.transport
  /-- The same bytes are unread, but more of them may have been received on one side. -/
  unread : c.unread = d.unread
  outbox : c.outbox = d.outbox
  session : c.session = d.session

namespace Alike

variable {c d : Connection}

theorem withSession (h : Alike c d) (session : Session) :
    Alike { c with session } { d with session } :=
  ⟨h.transport, h.unread, h.outbox, rfl⟩

theorem withOutbox (h : Alike c d) (outbox : Writer) :
    Alike { c with outbox } { d with outbox } :=
  ⟨h.transport, h.unread, rfl, h.session⟩

theorem withTransport (h : Alike c d) {t u : Transport}
    (ht : Transport.StaysAlike c.transport d.transport t u) :
    Alike { c with transport := t } { d with transport := u } := by
  obtain ⟨halike, hc, hd⟩ := ht
  refine ⟨halike, ?_, h.outbox, h.session⟩
  have hunread := h.unread
  unfold Connection.unread Transport.undelivered at *
  rw [hc, hd]
  exact hunread

/-! ### Receiving and sending -/

theorem recv (h : Alike c d) : SameOutcome Alike (recv c) (recv d) := by
  obtain ⟨c', hcalm, hunread, hc, _, _, _, hc'⟩ := recv_of_isCalm h.transport.calm.1
  obtain ⟨d', hcalm', hunread', hd, _, _, _, hd'⟩ := recv_of_isCalm h.transport.calm.2
  rw [h.unread, h.transport.ending] at hunread hc
  have hafter : Alike c' d' := by
    refine ⟨⟨⟨hcalm, hcalm'⟩, ?_, ?_, ?_⟩, hunread.trans hunread'.symm, ?_, ?_⟩ <;> rw [hc', hd']
    · exact h.transport.ending
    · exact h.transport.limits
    · exact h.transport.trace
    · exact h.outbox
    · exact h.session
  rw [hc, hd]
  cases (ServerMessage.next d.transport.ending d.unread).1 with
  | ok m => exact .ok hafter
  | error stop => exact .error hafter

theorem transmit (h : Alike c d) (bs : Bytes) :
    SameOutcome Alike (transmit bs c) (transmit bs d) := by
  refine (transmit_of_writesAlike h.transport.writesAlike bs).mono ?_
  rintro _ _ ⟨t, u, ht, rfl, rfl⟩
  exact h.withTransport (h.transport.stays ht)

theorem keptByTransmit : KeptByTransmit Alike where
  outbox h := h.outbox
  withOutbox h := h.withOutbox
  transmit h := h.transmit

theorem send (h : Alike c d) (message : ClientMessage) :
    SameOutcome Alike (send message c) (send message d) :=
  keptByTransmit.send h message

/-! ### The handshake -/

section

variable {config : Config} {nonces : NonceSource} {hs hs' : Handshake} {c' : Connection}
  {m : ServerMessage} {ms : List ServerMessage} {said : List ClientMessage}

theorem toleratesWork (h : Alike c d) (hs : Handshake) (m : ServerMessage) :
    c.toleratesWork hs m = d.toleratesWork hs m := by
  rw [Connection.toleratesWork, Connection.toleratesWork, h.transport.calm.1.isPatient,
    h.transport.calm.2.isPatient]

theorem hears (h : Alike c d) {c₁ : Connection} (hh : Hears hs c m c₁) :
    ∃ d₁, Hears hs d m d₁ ∧ Alike c₁ d₁ := by
  obtain ⟨d₁, hd, h₁⟩ := (h.withSession hs.session).recv.of_ok hh.received
  refine ⟨d₁, ⟨hd, ?_⟩, h₁⟩
  rw [← h₁.toleratesWork]
  exact hh.awaited

theorem keepsUp : KeepsUp Alike where
  hears h hh := h.hears hh
  sends h m := h.send m
  withSession h := h.withSession
  shutdown h := h.withTransport (h.transport.stays h.transport.writesAlike.log_shutdown)

/-- The last rounds over alike connections come to the same. -/
theorem ends {r : EStateM.Result (Stop ConnectionError) Connection Unit}
    (he : Ends config hs c r) (h : Alike c d) :
    ∃ r', Ends config hs d r' ∧ SameOutcome Alike r r' := by
  obtain ⟨stop, c₁, hr, rfl⟩ | ⟨m, c₁, hr, hlate, rfl⟩ | hsame := he.keepsUp keepsUp h
  · obtain ⟨d₁, hr', h₁⟩ := (h.withSession hs.session).recv.of_error hr
    exact ⟨_, .unheard hr', .error h₁⟩
  · obtain ⟨d₁, hr', h₁⟩ := (h.withSession hs.session).recv.of_ok hr
    rw [h₁.toleratesWork] at hlate
    exact ⟨_, .late hr' hlate, .error h₁⟩
  · exact hsame

theorem negotiate (h : Alike c d) (config : Config) (hs : Handshake) :
    SameOutcome Alike (negotiate config hs c) (negotiate config hs d) := by
  obtain ⟨ms, said, hs', c', hl, he⟩ := exists_leads config hs c
  obtain ⟨d', hl', h'⟩ := hl.keepsUp keepsUp h
  obtain ⟨r', he', hsame⟩ := h'.ends he
  rw [hl'.negotiate_eq, negotiate_of_ends he']
  exact hsame

theorem runHandshake (h : Alike c d) (config : Config) (nonces : NonceSource) :
    SameOutcome Alike (runHandshake config nonces c) (runHandshake config nonces d) := by
  have hsend := h.send (Handshake.proposal config)
  unfold Connection.runHandshake
  generalize Connection.send (Handshake.proposal config) c = r at *
  generalize Connection.send (Handshake.proposal config) d = r' at *
  cases hsend with
  | error h₀ => exact .error h₀
  | @ok _ c₀ d₀ h₀ =>
    dsimp only
    rw [h₀.session]
    exact h₀.negotiate config _

theorem startup (h : Alike c d) (config : Config) (nonces : NonceSource) :
    SameOutcome Alike (startup config nonces c) (startup config nonces d) := by
  have hrun := h.runHandshake config nonces
  unfold Connection.startup
  rw [h.session]
  generalize Connection.runHandshake config nonces c = r at *
  generalize Connection.runHandshake config nonces d = r' at *
  split
  · cases hrun with
    | ok h' => exact .ok h'
    | @error stop c' d' h' =>
      cases stop with
      | failed e =>
        dsimp only
        rw [h'.session]
        exact .error (h'.withSession _)
      | gaveUp => exact .error h'
  · exact .error h

end

end Alike

/-- What comes of so many receives, one after the other, whether they fail or not. -/
def receipts : Nat → Connection → List (Except (Stop ConnectionError) ServerMessage)
  | 0, _ => []
  | count + 1, c =>
    match recv c with
    | .ok m c => .ok m :: receipts count c
    | .error stop c => .error stop :: receipts count c

theorem Alike.receipts {c d : Connection} (h : Alike c d) (count : Nat) :
    receipts count c = receipts count d := by
  induction count generalizing c d with
  | zero => rfl
  | succ count ih =>
    have hrecv := h.recv
    unfold Connection.receipts
    generalize Connection.recv c = r at *
    generalize Connection.recv d = r' at *
    cases hrecv with
    | ok h' | error h' =>
      dsimp only
      rw [ih h']

/-- The handshake does not depend on how bytes are delivered. Over two peers that send the same
bytes it comes to the same: the same answer or the same error, and connections about which the client
knows the same, over which the same bytes have been written and the same closings done in the same
order, and over which any number of further receives give the same. -/
theorem startup_sameOutcome {peer peer' : Peer} (h : peer.DeliversLike peer') (config : Config)
    (nonces : NonceSource) :
    SameOutcome
      (fun c d => c.session = d.session ∧ c.transport.trace = d.transport.trace ∧
        ∀ count, receipts count c = receipts count d)
      (startup config nonces { transport := .toPeer peer })
      (startup config nonces { transport := .toPeer peer' }) := by
  have halike : Alike { transport := .toPeer peer } { transport := .toPeer peer' } := by
    refine ⟨⟨⟨⟨h.calm.1, rfl, rfl⟩, h.calm.2, rfl, rfl⟩, h.ending, h.limits, rfl⟩, ?_, rfl, rfl⟩
    exact h.sends
  exact (halike.startup config nonces).mono fun c d h' =>
    ⟨h'.session, h'.transport.trace, h'.receipts⟩

/-! ### The same bytes at once and one by one -/

/-- The frames of a server that names its version, needs no proof, and is ready. -/
def trustingFrames : List Frame :=
  [⟨ServerMessage.handshakeTag, [0, 0, 0, 8, 0, 0]⟩,
    ⟨ServerMessage.authenticationTag, [0, 0, 0, 0]⟩,
    ⟨ServerMessage.readyForCommandTag, [0, 0, 0x54]⟩]

/-- These frames, and one that comes after the handshake. -/
def talkativeFrames : List Frame :=
  trustingFrames ++ [⟨ServerMessage.readyForCommandTag, [0, 0, 0x49]⟩]

/-- A peer that sends these frames all at once. -/
def promptPeer : Peer where
  deliveries := [.bytes (talkativeFrames.flatMap Frame.toBytes)]

/-- A peer that sends them byte by byte, with pauses, and accepts three bytes at a time. -/
def haltingPeer : Peer where
  deliveries := (talkativeFrames.flatMap Frame.toBytes).flatMap fun b => [.bytes [b], .pause 5]
  limits := { perWrite := some 3 }

theorem startup_of_promptPeer :
    ∃ c, startup (.forUser "edgedb") ⟨fun _ => 0, 0⟩ { transport := .toPeer promptPeer } =
      .ok () c := by
  have hpeer : promptPeer.Speaks talkativeFrames := Peer.speaks_at_once _
  have hdecode : talkativeFrames.map ServerMessage.decode =
      [.handshake .current [], .authentication .ok, .readyForCommand .inTransaction,
        .readyForCommand .notInTransaction].map .ok := by
    decide
  have hname : (Bytes.ofString "edgedb").length < sizeBound := by decide
  have ht : Turns (.forUser "edgedb") ⟨fun _ => 0, 0⟩ [.authOk] [] ⟨fun _ => 0, 0⟩ :=
    .authOk (.nil _)
  obtain ⟨c, hok, -⟩ := startup_of_script (s := ⟨some [], [.authOk], .inTransaction⟩) hpeer hdecode
    (by decide) hname hname ⟨[.readyForCommand .notInTransaction], rfl⟩ ht
  exact ⟨c, hok⟩

/-- Both peers get the connection set up, and the message that comes after the handshake is received
from both. -/
theorem startup_sameOutcome_haltingPeer :
    ∃ c d, startup (.forUser "edgedb") ⟨fun _ => 0, 0⟩ { transport := .toPeer promptPeer } =
        .ok () c ∧
      startup (.forUser "edgedb") ⟨fun _ => 0, 0⟩ { transport := .toPeer haltingPeer } = .ok () d ∧
      c.session = d.session ∧ c.transport.trace = d.transport.trace ∧
      receipts 2 c = receipts 2 d := by
  have hlike : promptPeer.DeliversLike haltingPeer := by
    refine ⟨⟨by simp [promptPeer, Delivery.IsCalm], ?_⟩, by decide, rfl,
      ⟨by decide, rfl, rfl, rfl, rfl⟩⟩
    intro d hd
    obtain ⟨b, -, hb⟩ := List.mem_flatMap.mp hd
    simp only [List.mem_cons, List.not_mem_nil, or_false] at hb
    rcases hb with rfl | rfl <;> trivial
  obtain ⟨c, hc⟩ := startup_of_promptPeer
  obtain ⟨d, hd, hsession, htrace, hreceipts⟩ :=
    (startup_sameOutcome hlike (.forUser "edgedb") ⟨fun _ => 0, 0⟩).of_ok hc
  exact ⟨c, d, hc, hd, hsession, htrace, hreceipts 2⟩

end Connection

end EdgeClient
