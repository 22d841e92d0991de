import EdgeClient.Proofs.Connection.Delivery
import EdgeClient.Proofs.Connection.Reception

/-!
# The frame that decides

A start that has come to its end looked at no byte behind the frame that decided it. So it makes no
difference whether the server closed its side after its last byte or went on sending: unless the
start ran out of bytes, it comes to the same (`Foreruns.startup`), and the bytes behind the deciding
frame are what the connection receives from then on.

A receive is where this begins: the answer that some bytes give stands when bytes come in behind them
(`ServerMessage.next_append`).
-/

namespace EdgeClient

/-- What bytes tell about their first frame they also tell when bytes come in behind them. -/
theorem ServerMessage.next_append {ending : Ending} {bs : Bytes}
    (h : isDecision (next ending bs).1 = true) (ending' : Ending) (more : Bytes) :
    next ending' (bs ++ more) = ((next ending bs).1, (next ending bs).2 ++ more) := by
  have hfeed : (⟨bs ++ more⟩ : Inbox) = Inbox.feed ⟨bs⟩ more := rfl
  unfold next at h ⊢
  cases hnext : Inbox.next? ⟨bs⟩ with
  | error e => rw [hfeed, Inbox.next?_feed_of_error hnext]
  | ok taken =>
    cases taken with
    | none =>
      rw [hnext] at h
      cases ending <;> exact absurd h (by simp [isDecision])
    | some taken =>
      obtain ⟨f, rest⟩ := taken
      rw [hfeed, Inbox.next?_feed_of_frame hnext]
      dsimp only
      cases decode f <;> rfl

/-- Where a server closes its side, a receive tells something about a frame, or the frames are at
their end. -/
theorem ServerMessage.isDecision_or_closed (bs : Bytes) :
    isDecision (next .closed bs).1 = true ∨ (next .closed bs).1 = .error (.failed .closed) := by
  unfold next
  cases Inbox.next? ⟨bs⟩ with
  | error e => exact Or.inl rfl
  | ok taken =>
    cases taken with
    | none => exact Or.inr rfl
    | some taken =>
      left
      dsimp only
      cases decode taken.1 <;> rfl

/-- A server that says it is ready ends the handshake, one way or the other. -/
theorem Handshake.react_readyForCommand (config : Config) (h : Handshake)
    (transaction : TransactionState) :
    (∃ session, h.react config (.readyForCommand transaction) = .finish session) ∨
      ∃ e session, h.react config (.readyForCommand transaction) = .fail e session := by
  unfold react
  cases h.phase with
  | negotiating => exact Or.inl ⟨_, rfl⟩
  | serverFirst conversation => exact Or.inr ⟨_, _, rfl⟩
  | serverFinal conversation => exact Or.inr ⟨_, _, rfl⟩

/-- So it has not said so before. -/
theorem Handshake.Run.ne_readyForCommand {config : Config} {h h' : Handshake}
    {ms : List ServerMessage} {said : List ClientMessage} (hr : Handshake.Run config h ms said h') :
    ∀ m ∈ ms, ∀ transaction, m ≠ .readyForCommand transaction := by
  induction hr with
  | nil => simp
  | @wait h _ _ m _ _ hm _ ih | @say h _ _ m _ _ _ hm _ ih =>
    refine List.forall_mem_cons.mpr ⟨?_, ih⟩
    rintro transaction rfl
    rcases h.react_readyForCommand config transaction with ⟨session, hend⟩ | ⟨e, session, hend⟩
    · exact absurd (hm.symm.trans hend) (by simp)
    · exact absurd (hm.symm.trans hend) (by simp)

namespace Connection

/-- Two connections that differ in how bytes get to the server and back, and in that on the second
one `more` bytes come behind those that are unread on the first, where the server closes its side. -/
structure Foreruns (more : Bytes) (ending : Ending) (c d : Connection) : Prop where
  calm : c.transport.IsCalm ∧ d.transport.IsCalm
  writing : c.transport.WritesAlike d.transport
  unread : d.unread = c.unread ++ more
  endings : c.transport.ending = .closed ∧ d.transport.ending = ending
  outbox : c.outbox = d.outbox
  session : c.session = d.session

namespace Foreruns

variable {more : Bytes} {ending : Ending} {c d : Connection}

theorem withSession (h : Foreruns more ending c d) (session : Session) :
    Foreruns more ending { c with session } { d with session } :=
  ⟨h.calm, h.writing, h.unread, h.endings, h.outbox, rfl⟩

theorem withOutbox (h : Foreruns more ending c d) (outbox : Writer) :
    Foreruns more ending { c with outbox } { d with outbox } :=
  ⟨h.calm, h.writing, h.unread, h.endings, rfl, h.session⟩

theorem withTransport (h : Foreruns more ending c d) {t u : Transport}
    (ht : Transport.StaysWritingAlike c.transport d.transport t u) :
    Foreruns more ending { c with transport := t } { d with transport := u } := by
  obtain ⟨hwriting, ⟨limits, log, rfl⟩, limits', log', rfl⟩ := ht
  exact ⟨⟨h.calm.1.withLog _ _, h.calm.2.withLog _ _⟩, hwriting, h.unread, h.endings, h.outbox,
    h.session⟩

/-! ### Receiving and sending -/

/-- A receive that tells something about a frame tells the same when more bytes come. -/
theorem recv (h : Foreruns more ending c d)
    (hr : answerOf (recv c) ≠ .error (.failed .closed)) :
    SameOutcome (Foreruns more ending) (recv c) (recv d) := by
  obtain ⟨c', hcalm, hunread, hc, _, _, _, hc'⟩ := recv_of_isCalm h.calm.1
  obtain ⟨d', hcalm', hunread', hd, _, _, _, hd'⟩ := recv_of_isCalm h.calm.2
  rw [h.endings.1] at hunread hc
  have hanswer : answerOf (Connection.recv c) = (ServerMessage.next .closed c.unread).1 := by
    rw [hc]
    cases (ServerMessage.next .closed c.unread).1 <;> rfl
  have hdecision : isDecision (ServerMessage.next .closed c.unread).1 = true := by
    rcases ServerMessage.isDecision_or_closed c.unread with hdecision | hclosed
    · exact hdecision
    · exact absurd (hanswer.trans hclosed) hr
  rw [h.unread, ServerMessage.next_append hdecision] at hunread' hd
  have hafter : Foreruns more ending c' d' := by
    refine ⟨⟨hcalm, hcalm'⟩, ?_, ?_, ?_, ?_, ?_⟩
    · rw [hc', hd']
      exact ⟨h.writing.limits, h.writing.trace⟩
    · rw [hunread', hunread]
    · rw [hc', hd']
      exact h.endings
    · rw [hc', hd']
      exact h.outbox
    · rw [hc', hd']
      exact h.session
  rw [hc, hd]
  cases (ServerMessage.next .closed c.unread).1 with
  | ok m => exact .ok hafter
  | error stop => exact .error hafter

theorem keptByTransmit : KeptByTransmit (Foreruns more ending) where
  outbox h := h.outbox
  withOutbox h := h.withOutbox
  transmit h bs := by
    refine (transmit_of_writesAlike h.writing bs).mono ?_
    rintro _ _ ⟨t, u, ht, rfl, rfl⟩
    exact h.withTransport ht

/-! ### The handshake -/

section

variable {config : Config} {nonces : NonceSource} {hs : Handshake} {c₁ : Connection}
  {m : ServerMessage}

theorem toleratesWork (h : Foreruns more ending c d) (hs : Handshake) (m : ServerMessage) :
    c.toleratesWork hs m = d.toleratesWork hs m := by
  rw [Connection.toleratesWork, Connection.toleratesWork, h.calm.1.isPatient, h.calm.2.isPatient]

theorem recv_ok (h : Foreruns more ending c d) (session : Session)
    (hr : Connection.recv { c with session } = .ok m c₁) :
    ∃ d₁, Connection.recv { d with session } = .ok m d₁ ∧ Foreruns more ending c₁ d₁ := by
  refine ((h.withSession session).recv ?_).of_ok hr
  rw [hr]
  simp [answerOf]

theorem keepsUp : KeepsUp (Foreruns more ending) where
  hears h hh := by
    obtain ⟨d₁, hd, h₁⟩ := h.recv_ok _ hh.received
    refine ⟨d₁, ⟨hd, ?_⟩, h₁⟩
    rw [← h₁.toleratesWork]
    exact hh.awaited
  sends h m := keptByTransmit.send h m
  withSession h := h.withSession
  shutdown h := h.withTransport h.writing.log_shutdown

/-- The last round comes to the same, unless it is the one in which the client runs out of bytes. -/
theorem ends {r : EStateM.Result (Stop ConnectionError) Connection Unit}
    (he : Ends config hs c r) (h : Foreruns more ending c d)
    (hr : answerOf r ≠ .error (.failed .closed)) :
    ∃ r', Ends config hs d r' ∧ SameOutcome (Foreruns more ending) r r' := by
  obtain ⟨stop, c₁, hrecv, rfl⟩ | ⟨m, c₁, hrecv, hlate, rfl⟩ | hsame := he.keepsUp keepsUp h
  · have hopen : answerOf (Connection.recv { c with session := hs.session }) ≠
        .error (.failed .closed) := by
      rw [hrecv]
      intro hclosed
      obtain rfl := Except.error.inj hclosed
      exact hr rfl
    obtain ⟨d₁, hrecv', h₁⟩ := ((h.withSession hs.session).recv hopen).of_error hrecv
    exact ⟨_, .unheard hrecv', .error h₁⟩
  · obtain ⟨d₁, hrecv', h₁⟩ := h.recv_ok _ hrecv
    rw [h₁.toleratesWork] at hlate
    exact ⟨_, .late hrecv' hlate, .error h₁⟩
  · exact hsame

/-- A start that does not run out of bytes comes to the same when more bytes come. -/
theorem startup (h : Foreruns more ending c d) (hc : c.session = {}) (config : Config)
    (nonces : NonceSource)
    (hr : answerOf (startup config nonces c) ≠ .error (.failed .closed)) :
    SameOutcome (Foreruns more ending) (startup config nonces c) (startup config nonces d) := by
  have hd : d.session = {} := h.session.symm.trans hc
  have hconclude : ∀ {r r'}, SameOutcome (Foreruns more ending) r r' →
      SameOutcome (Foreruns more ending) (conclude r) (conclude r') :=
    conclude_sameOutcome (fun hcd => hcd.session) fun hcd => hcd.withSession
  rcases exists_reaches config nonces hc with
    ⟨stop, c₀, hsend, hstart⟩ | ⟨ms, said, hs, c', r, hreach, he, hstart⟩
  · obtain ⟨d₀, hsend', h₀⟩ := (keptByTransmit.send h _).of_error hsend
    rw [hstart, startup_eq hd, runHandshake, hsend']
    exact hconclude (.error h₀)
  · obtain ⟨d', hreach', h'⟩ := hreach.keepsUp keepsUp (fun hcd => hcd.session) h
    rw [hstart, answerOf_conclude] at hr
    obtain ⟨r', he', hsame⟩ := ends he h' hr
    rw [hstart, hreach'.startup_of_ends hd he']
    exact hconclude hsame

end

end Foreruns

end Connection

/-- A peer that closes its side after its last byte, and one that sends `more` bytes before it does
whatever it does. -/
structure Peer.IsContinuedBy (peer : Peer) (more : Bytes) (peer' : Peer) : Prop where
  /-- Nothing fails on the way, and nothing waits for the client. -/
  calm : (∀ d ∈ peer.deliveries, d.IsCalm) ∧ ∀ d ∈ peer'.deliveries, d.IsCalm
  sends : peer'.deliveries.flatMap Delivery.chunk =
    peer.deliveries.flatMap Delivery.chunk ++ more
  ending : peer.ending = .closed
  limits : peer.limits.Alike peer'.limits

namespace Connection

/-- Over a calm connection the `k`-th receive answers what the `k`-th frame of the unread bytes
decodes to, whatever is sent in between. -/
theorem answer_of_isCalm {c : Connection} (hc : c.transport.IsCalm) (transfers : List Transfer)
    {k : Nat} {r : Except (Stop ConnectionError) ServerMessage}
    (hk : (Transfer.answers transfers c)[k]? = some r) :
    ServerMessage.answer c.transport.ending c.unread k = r := by
  obtain ⟨hunprompted, hnone⟩ := Transport.isCalm_iff.mp hc
  obtain ⟨-, hanswers, hfailures⟩ := account hunprompted transfers
  rw [hnone, List.nil_eq, List.append_eq_nil_iff] at hfailures
  rw [withoutReadFailures_of_none hfailures.1] at hanswers
  exact hanswers k r hk

/-- A start is decided by a frame. If a server closes its side and the start did not fail for that,
then it comes to the same over a server that sends more: the same answer or the same error, and
connections about which the client knows the same and over which the same bytes have been written
and the same closings done. If the connection is set up, what it receives from then on are the frames
of the bytes behind the one with which the server was ready for the first time. -/
theorem startup_isDecided {peer peer' : Peer} {more : Bytes} (h : peer.IsContinuedBy more peer')
    (config : Config) (nonces : NonceSource)
    (hr : answerOf (startup config nonces { transport := .toPeer peer }) ≠
      .error (.failed .closed)) :
    SameOutcome (fun c d => c.session = d.session ∧ c.transport.trace = d.transport.trace)
        (startup config nonces { transport := .toPeer peer })
        (startup config nonces { transport := .toPeer peer' }) ∧
      ∀ d, startup config nonces { transport := .toPeer peer' } = .ok () d →
        ∃ heard transaction rest,
          Carries (peer.deliveries.flatMap Delivery.chunk)
            (heard ++ [.readyForCommand transaction]) rest ∧
          (∀ m ∈ heard, ∀ transaction, m ≠ .readyForCommand transaction) ∧
          ∀ transfers k r, (Transfer.answers transfers d)[k]? = some r →
            ServerMessage.answer peer'.ending (rest ++ more) k = r := by
  have hforeruns : Foreruns more peer'.ending { transport := .toPeer peer }
      { transport := .toPeer peer' } :=
    ⟨⟨⟨h.calm.1, rfl, rfl⟩, h.calm.2, rfl, rfl⟩, ⟨h.limits, rfl⟩, h.sends, ⟨h.ending, rfl⟩, rfl, rfl⟩
  have hsame := hforeruns.startup rfl config nonces hr
  refine ⟨hsame.mono fun c d hcd => ⟨hcd.session, hcd.writing.trace⟩, fun d hd => ?_⟩
  rw [hd] at hsame
  generalize hstart : startup config nonces { transport := .toPeer peer } = r at hsame
  cases hsame with
  | @ok _ c _ hcd =>
    have hidle : ({ transport := .toPeer peer } : Connection).outbox.IsIdle := rfl
    obtain ⟨p, said, hs, transaction, hp, -, hcarries, -, -⟩ := startup_ok hidle rfl hstart
    refine ⟨p.messages, transaction, c.unread, hcarries, hp.run.ne_readyForCommand, ?_⟩
    intro transfers k r hk
    have hanswer := answer_of_isCalm hcd.calm.2 transfers hk
    rw [hcd.unread, hcd.endings.2] at hanswer
    exact hanswer

/-- A peer that closes its side inside a frame that comes after the handshake. -/
def interruptedPeer : Peer where
  deliveries := [.bytes ((talkativeFrames.flatMap Frame.toBytes).take 31)]

theorem startup_isDecided_interruptedPeer :
    interruptedPeer.IsContinuedBy ((talkativeFrames.flatMap Frame.toBytes).drop 31) promptPeer ∧
      ∃ c d, startup (.forUser "edgedb") ⟨fun _ => 0, 0⟩ { transport := .toPeer interruptedPeer } =
          .ok () c ∧
        startup (.forUser "edgedb") ⟨fun _ => 0, 0⟩ { transport := .toPeer promptPeer } =
          .ok () d ∧
        c.session = d.session ∧ c.transport.trace = d.transport.trace ∧
        answerOf (recv c) = .error (.failed .closed) ∧
        answerOf (recv d) = .ok (.readyForCommand .notInTransaction) := by
  have hcontinued : interruptedPeer.IsContinuedBy
      ((talkativeFrames.flatMap Frame.toBytes).drop 31) promptPeer :=
    ⟨⟨by simp [interruptedPeer, Delivery.IsCalm], by simp [promptPeer, Delivery.IsCalm]⟩, by decide,
      rfl, ⟨by decide, rfl, rfl, rfl, rfl⟩⟩
  have hc : answerOf (startup (.forUser "edgedb") ⟨fun _ => 0, 0⟩
        { transport := .toPeer interruptedPeer }) = .ok () ∧
      answerOf (recv (leftBehind (startup (.forUser "edgedb") ⟨fun _ => 0, 0⟩
        { transport := .toPeer interruptedPeer }))) = .error (.failed .closed) := by
    decide +kernel
  have hd : answerOf (recv (leftBehind (startup (.forUser "edgedb") ⟨fun _ => 0, 0⟩
      { transport := .toPeer promptPeer }))) = .ok (.readyForCommand .notInTransaction) := by
    decide +kernel
  have hr : answerOf (startup (.forUser "edgedb") ⟨fun _ => 0, 0⟩
      { transport := .toPeer interruptedPeer }) ≠ .error (.failed .closed) := by
    rw [hc.1]
    simp
  obtain ⟨hsame, -⟩ := startup_isDecided hcontinued (.forUser "edgedb") ⟨fun _ => 0, 0⟩ hr
  generalize startup (.forUser "edgedb") ⟨fun _ => 0, 0⟩
    { transport := .toPeer interruptedPeer } = r at *
  generalize startup (.forUser "edgedb") ⟨fun _ => 0, 0⟩ { transport := .toPeer promptPeer } = r' at *
  cases hsame with
  | @ok _ c d hcd => exact ⟨hcontinued, c, d, rfl, rfl, hcd.1, hcd.2, hc.2, hd⟩
  | error => exact absurd hc.1 (by simp [answerOf])

end Connection

end EdgeClient
