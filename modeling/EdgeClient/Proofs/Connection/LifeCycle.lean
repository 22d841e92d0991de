import EdgeClient.Proofs.Connection.Delivery
import EdgeClient.Proofs.Connection.Transfers

/-!
# The life of a connection

A user of a connection starts it, sends and receives, in any order and as often as it likes. A start
goes through states of its own and notes the version and the key data on the way, but it may fail at
each of its steps. Between two calls nothing of that shows: the connection is new, ready or failed
(`Session.IsSettled`), a start settles once and for all which of the last two it is, and the other
calls leave alone what is known about the connection.

That the version is the client's or not settled yet is kept by each move of the handshake
(`Handshake.react_speaksCurrent`), hence by every round of the loop and by the last one.
-/

namespace EdgeClient

/-! ## The version during the handshake -/

/-- The version is not settled yet, or it is the client's. -/
def Session.SpeaksCurrent (s : Session) : Prop := s.version = none ∨ s.version = some .current

/-- A move keeps to the client's version, and settles it at the end. -/
def Move.SpeaksCurrent : Move → Prop
  | .wait next | .say _ next => next.session.SpeaksCurrent
  | .finish session => session.state = .ready ∧ session.version = some .current
  | .fail _ session | .hangUp _ session => session.SpeaksCurrent

theorem Handshake.beginExchange_speaksCurrent (config : Config) {h : Handshake}
    (hv : h.session.SpeaksCurrent) : (beginExchange config h).SpeaksCurrent := by
  unfold beginExchange
  cases config.password with
  | none => exact hv
  | some password =>
    dsimp only
    cases (Scram.Conversation.start config.user password h.nonces).step "" with
    | ok reply conversation => exact hv
    | error e conversation => exact hv

theorem Handshake.react_speaksCurrent (config : Config) {h : Handshake}
    (hv : h.session.SpeaksCurrent) (m : ServerMessage) : (h.react config m).SpeaksCurrent := by
  obtain ⟨session, phase, nonces⟩ := h
  cases phase with
  | negotiating =>
    cases m with
    | handshake version extensions =>
      rw [react_handshake]
      by_cases hstate : session.state = .awaitingServerHandshake
      · by_cases hversion : version = .current
        · rw [if_pos hstate, if_pos hversion, hversion]
          exact Or.inr rfl
        · rw [if_pos hstate, if_neg hversion]
          exact hv
      · rw [if_neg hstate]
        exact hv
    | authentication request =>
      cases request with
      | sasl methods => exact beginExchange_speaksCurrent config hv
      | _ => exact hv
    | readyForCommand transaction =>
      refine ⟨rfl, ?_⟩
      rcases hv with hv | hv <;> exact congrArg (fun v => some (v.getD .current)) hv
    | _ => exact hv
  | serverFirst conversation =>
    cases m with
    | authentication request =>
      cases request with
      | saslContinue data =>
        unfold react reactServerFirst
        dsimp only
        cases conversation.step data <;> exact hv
      | _ => exact hv
    | _ => exact hv
  | serverFinal conversation =>
    cases m with
    | authentication request =>
      cases request with
      | saslFinal data =>
        unfold react reactServerFinal
        dsimp only
        cases conversation.step data <;> exact hv
      | ok =>
        unfold react reactServerFinal
        dsimp only
        cases conversation.isDone <;> exact hv
      | _ => exact hv
    | _ => exact hv

namespace Connection

variable {config : Config} {nonces : NonceSource} {h h' : Handshake} {c c' : Connection}
  {ms : List ServerMessage} {said : List ClientMessage}

theorem Leads.speaksCurrent (hl : Leads config h c ms said h' c')
    (hv : h.session.SpeaksCurrent) : h'.session.SpeaksCurrent := by
  induction hl with
  | nil => exact hv
  | @wait h _ _ _ _ _ m _ _ _ hm _ ih =>
    have hmove := Handshake.react_speaksCurrent config hv m
    rw [hm] at hmove
    exact ih hmove
  | @say h _ _ _ _ _ _ m _ _ _ _ hm _ _ ih =>
    have hmove := Handshake.react_speaksCurrent config hv m
    rw [hm] at hmove
    exact ih hmove

/-- A run of the handshake leaves a session with the client's version or none, and a ready one if it
succeeds. -/
def Settles : EStateM.Result (Stop ConnectionError) Connection Unit → Prop
  | .ok _ c => c.session.state = .ready ∧ c.session.version = some .current
  | .error _ c => c.session.SpeaksCurrent

theorem session_of_send {m : ClientMessage}
    {r : EStateM.Result (Stop ConnectionError) Connection Unit} (hs : send m c = r) :
    (leftBehind r).session = c.session := by
  rw [← hs]
  exact Transfer.session_after (.send m) c

theorem Ends.settles {r : EStateM.Result (Stop ConnectionError) Connection Unit}
    (he : Ends config h c r) (hv : h.session.SpeaksCurrent) : Settles r := by
  cases he with
  | unheard hr =>
    obtain ⟨inbox, incoming, now, rfl⟩ := recv_error hr
    exact hv
  | late hr =>
    obtain ⟨-, inbox, incoming, now, rfl⟩ := recv_ok hr
    exact hv
  | @unsaid m reply next stop c₁ c₂ _ hm hs =>
    have hmove := Handshake.react_speaksCurrent config hv m
    rw [hm] at hmove
    show c₂.session.SpeaksCurrent
    have hsession : c₂.session = next.session := session_of_send hs
    rw [hsession]
    exact hmove
  | @finish m _ _ _ hm | @fail m _ _ _ _ hm | @hangUp m _ _ _ _ hm =>
    have hmove := Handshake.react_speaksCurrent config hv m
    rw [hm] at hmove
    exact hmove

theorem runHandshake_settles (config : Config) (nonces : NonceSource)
    (hv : c.session.SpeaksCurrent) : Settles (runHandshake config nonces c) := by
  unfold runHandshake
  cases hsend : send (Handshake.proposal config) c with
  | error stop c₀ =>
    have hsession : c₀.session = c.session := session_of_send hsend
    show c₀.session.SpeaksCurrent
    rw [hsession]
    exact hv
  | ok _ c₀ =>
    have hsession : c₀.session = c.session := session_of_send hsend
    obtain ⟨ms, said, h', c', hl, he⟩ :=
      exists_leads config (Handshake.afterProposal c₀.session nonces) c₀
    refine he.settles (hl.speaksCurrent ?_)
    show c₀.session.SpeaksCurrent
    rw [hsession]
    exact hv

theorem startup_of_started (hs : c.session.state ≠ .start) :
    startup config nonces c = .error (.failed (.invalidState c.session.state)) c := by
  rw [startup, if_neg hs]

/-- A start that succeeds makes the connection ready. -/
theorem session_of_startup_ok (hv : c.session.SpeaksCurrent)
    (h : startup config nonces c = .ok () c') :
    c'.session.state = .ready ∧ c'.session.version = some .current := by
  by_cases hs : c.session.state = .start
  · have hrun := runHandshake_settles config nonces hv
    rw [startup, if_pos hs] at h
    generalize runHandshake config nonces c = r at *
    cases r with
    | ok _ c₁ =>
      obtain rfl := (EStateM.Result.ok.inj h).2
      exact hrun
    | error stop c₁ => cases stop <;> exact absurd h (by simp)
  · exact absurd ((startup_of_started hs).symm.trans h) (by simp)

/-- A start of a new connection that fails does so for good. -/
theorem session_of_startup_failed {e : ConnectionError} (hv : c.session.SpeaksCurrent)
    (hs : c.session.state = .start) (h : startup config nonces c = .error (.failed e) c') :
    c'.session.state = .failed ∧ c'.session.SpeaksCurrent := by
  have hrun := runHandshake_settles config nonces hv
  rw [startup, if_pos hs] at h
  generalize runHandshake config nonces c = r at *
  cases r with
  | ok _ c₁ => exact absurd h (by simp)
  | error stop c₁ =>
    cases stop with
    | failed e' =>
      obtain rfl := (EStateM.Result.error.inj h).2
      exact ⟨rfl, hrun⟩
    | gaveUp => exact absurd h (by simp)

end Connection

/-! ## Calls -/

/-- What the user of a connection does with it. -/
inductive Call where
  /-- The connection is set up. -/
  | startup (config : Config) (nonces : NonceSource)
  /-- A message is sent or received. -/
  | transfer (transfer : Transfer)

/-- What a call leaves behind, if it returns: it does not when it would wait for ever. -/
def returned {α : Type} : EStateM.Result (Stop ConnectionError) Connection α → Option Connection
  | .ok _ c | .error (.failed _) c => some c
  | .error .gaveUp _ => none

namespace Call

/-- The connection after a call, if it returns. -/
def after : Call → Connection → Option Connection
  | .startup config nonces, c => returned (c.startup config nonces)
  | .transfer (.send message), c => returned (c.send message)
  | .transfer .recv, c => returned c.recv

/-- The connection after some calls, one after the other, if all of them return. -/
def afterAll (calls : List Call) (c : Connection) : Option Connection :=
  calls.foldlM (fun c call => call.after c) c

/-- Whether a call sets the connection up. -/
def IsStartup : Call → Prop
  | .startup .. => True
  | .transfer _ => False

end Call

/-! ## Between two calls -/

/-- What is known about a connection while no call is going on. -/
structure Session.IsSettled (s : Session) : Prop where
  /-- The handshake has not begun or is over. -/
  state : s.state = .start ∨ s.state = .ready ∨ s.state = .failed
  /-- Before it nothing is known about the server. -/
  fresh : s.state = .start → s.version = none ∧ s.keyData = none ∧ s.transaction = .initial
  version : s.SpeaksCurrent
  ready : s.state = .ready → s.version = some .current

namespace Call

variable {c c' : Connection} {call : Call} {calls : List Call}

theorem eq_leftBehind_of_returned {α : Type}
    {r : EStateM.Result (Stop ConnectionError) Connection α} (h : returned r = some c') :
    c' = leftBehind r := by
  cases r with
  | ok _ c => exact (Option.some.inj h).symm
  | error stop c =>
    cases stop with
    | failed e => exact (Option.some.inj h).symm
    | gaveUp => exact absurd h (by simp [returned])

theorem session_of_transfer {transfer : Transfer} (h : after (.transfer transfer) c = some c') :
    c'.session = c.session := by
  cases transfer with
  | send message =>
    rw [eq_leftBehind_of_returned h]
    exact Transfer.session_after (.send message) c
  | recv =>
    rw [eq_leftBehind_of_returned h]
    exact Transfer.session_after .recv c

/-- Once a connection is not new any more no call changes what is known about it. -/
theorem session_of_started (hs : c.session.state ≠ .start) (h : call.after c = some c') :
    c'.session = c.session := by
  cases call with
  | startup config nonces =>
    rw [after, Connection.startup_of_started hs] at h
    rw [Option.some.inj h]
  | transfer transfer => exact session_of_transfer h

theorem isSettled_after (hc : c.session.IsSettled) (h : call.after c = some c') :
    c'.session.IsSettled ∧ (call.IsStartup → c'.session.state ≠ .start) := by
  cases call with
  | startup config nonces =>
    by_cases hs : c.session.state = .start
    · rw [after] at h
      cases hr : c.startup config nonces with
      | ok _ c₁ =>
        obtain rfl : c₁ = c' := by rwa [hr, returned, Option.some.injEq] at h
        obtain ⟨hready, hversion⟩ := Connection.session_of_startup_ok hc.version hr
        refine ⟨⟨Or.inr (Or.inl hready), ?_, Or.inr hversion, fun _ => hversion⟩, ?_⟩
        all_goals simp [hready]
      | error stop c₁ =>
        cases stop with
        | failed e =>
          obtain rfl : c₁ = c' := by rwa [hr, returned, Option.some.injEq] at h
          obtain ⟨hfailed, hv⟩ := Connection.session_of_startup_failed hc.version hs hr
          refine ⟨⟨Or.inr (Or.inr hfailed), ?_, hv, ?_⟩, ?_⟩
          all_goals simp [hfailed]
        | gaveUp => exact absurd h (by simp [hr, returned])
    · rw [session_of_started hs h]
      exact ⟨hc, fun _ => hs⟩
  | transfer transfer =>
    rw [session_of_transfer h]
    exact ⟨hc, False.elim⟩

theorem afterAll_cons (h : afterAll (call :: calls) c = some c') :
    ∃ c₁, call.after c = some c₁ ∧ afterAll calls c₁ = some c' := by
  rw [afterAll, List.foldlM_cons] at h
  exact Option.bind_eq_some_iff.mp h

theorem session_of_started_afterAll (hs : c.session.state ≠ .start)
    (h : afterAll calls c = some c') : c'.session = c.session := by
  induction calls generalizing c with
  | nil => rw [Option.some.inj h]
  | cons call calls ih =>
    obtain ⟨c₁, hfirst, hrest⟩ := afterAll_cons h
    have hsession := session_of_started hs hfirst
    rw [ih (by rwa [hsession]) hrest, hsession]

theorem isSettled_afterAll (hc : c.session.IsSettled) (h : afterAll calls c = some c') :
    c'.session.IsSettled ∧ ((∃ call ∈ calls, call.IsStartup) → c'.session.state ≠ .start) := by
  induction calls generalizing c with
  | nil =>
    rw [← Option.some.inj h]
    exact ⟨hc, by simp⟩
  | cons call calls ih =>
    obtain ⟨c₁, hfirst, hrest⟩ := afterAll_cons h
    obtain ⟨hsettled, hstarted⟩ := isSettled_after hc hfirst
    obtain ⟨hsettled', hstarted'⟩ := ih hsettled hrest
    refine ⟨hsettled', ?_⟩
    rintro ⟨call', hmem, hstartup⟩
    rcases List.mem_cons.mp hmem with rfl | hmem
    · have hs := hstarted hstartup
      rwa [session_of_started_afterAll hs hrest]
    · exact hstarted' ⟨call', hmem, hstartup⟩

end Call

namespace Connection

/-- What holds of a new connection after the given calls, and of the next ones. -/
structure KeepsLifeCycle (calls : List Call) (c : Connection) : Prop where
  settled : c.session.IsSettled
  /-- A start that succeeds makes the connection ready. -/
  starts : ∀ config nonces c', startup config nonces c = .ok () c' → c'.session.state = .ready
  /-- A start of a new connection that fails does so for good. -/
  fails : ∀ config nonces e c', c.session.state = .start →
    startup config nonces c = .error (.failed e) c' → c'.session.state = .failed
  /-- After a start the connection is not new any more, and a further one is refused and changes
  nothing at all. -/
  once : (∃ call ∈ calls, call.IsStartup) → c.session.state ≠ .start ∧ ∀ config nonces,
    startup config nonces c = .error (.failed (.invalidState c.session.state)) c
  /-- Sending and receiving change nothing of what is known about the connection. -/
  transfers : ∀ transfer : Transfer, (transfer.after c).session = c.session
  /-- Once the connection is not new any more, nothing does. -/
  final : c.session.state ≠ .start → ∀ more c', Call.afterAll more c = some c' →
    c'.session = c.session

/-- Whatever is called on a new connection, in whatever order, the calls that return leave it new,
ready or failed, and it stays ready or failed. -/
theorem keepsLifeCycle {t : Transport} {calls : List Call} {c : Connection}
    (h : Call.afterAll calls { transport := t } = some c) : KeepsLifeCycle calls c := by
  have hfresh : ({ transport := t } : Connection).session.IsSettled :=
    ⟨Or.inl rfl, fun _ => ⟨rfl, rfl, rfl⟩, Or.inl rfl, fun h => HandshakeState.noConfusion h⟩
  obtain ⟨hsettled, hstarted⟩ := Call.isSettled_afterAll hfresh h
  exact {
    settled := hsettled
    starts _ _ _ hok := (session_of_startup_ok hsettled.version hok).1
    fails _ _ _ _ hs herror := (session_of_startup_failed hsettled.version hs herror).1
    once hcalls := ⟨hstarted hcalls, fun _ _ => startup_of_started (hstarted hcalls)⟩
    transfers transfer := Transfer.session_after transfer c
    final hs _ _ hmore := Call.session_of_started_afterAll hs hmore }

/-- A start, a message received, and a start that is refused. -/
def lifeCalls : List Call :=
  [.startup (.forUser "edgedb") ⟨fun _ => 0, 0⟩, .transfer .recv,
    .startup (.forUser "edgedb") ⟨fun _ => 0, 0⟩]

theorem keepsLifeCycle_promptPeer :
    ∃ c, Call.afterAll lifeCalls { transport := .toPeer promptPeer } = some c ∧
      KeepsLifeCycle lifeCalls c ∧ c.session.state = .ready := by
  have hreturns : (Call.afterAll lifeCalls { transport := .toPeer promptPeer }).map
      (fun c => c.session.state) = some .ready := by
    decide +kernel
  obtain ⟨c, hc, hready⟩ := Option.map_eq_some_iff.mp hreturns
  exact ⟨c, hc, keepsLifeCycle hc, hready⟩

end Connection

end EdgeClient
