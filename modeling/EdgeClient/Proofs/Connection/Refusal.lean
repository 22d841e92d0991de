import EdgeClient.Proofs.Connection.ProvingServer
import EdgeClient.Proofs.Connection.Startup

/-!
# How a handshake fails

At any point of a handshake the next message either takes it further, or ends it well, or is refused
for exactly one reason. `Refuses` is the table of the reasons, by the three places at which the
client waits: between two turns, for the first server string, and for the last one.
`startup_refuses` says what a refusal leaves behind: a connection that has failed for good, that
still knows what it had learned, and that has been closed only because of a version.
-/

namespace EdgeClient

/-- Whether the client has proved who it is, but the exchange is not over. -/
def Point.AwaitsEnd : Point → Prop
  | .answered .. | .verified .. => True
  | .outside | .challenged _ => False

/-- The reasons for which a client that has gone along with a server to `p`, and is in `phase` of
its handshake, refuses a message. -/
inductive Refuses (config : Config) (p : Progress) (phase : Phase) :
    ServerMessage → ConnectionError → Prop where
  | error (e : ServerError) : Refuses config p phase (.error e) (.server e)
  -- between two turns
  | status {request : Authentication} : p.point = .outside →
    request.status ≠ 0 → request.status ≠ 0xa →
      Refuses config p phase (.authentication request) (.auth (.unexpectedStatus request.status))
  | missingPassword {methods : List Bytes} : p.point = .outside → config.password = none →
      Refuses config p phase (.authentication (.sasl methods)) (.auth .missingPassword)
  | unknown {tag : UInt8} : p.point = .outside →
      Refuses config p phase (.unknown tag) (.unexpectedMessage tag
        (if p.messages = [] then .awaitingServerHandshake else .awaitingAuthOrReady))
  -- the version has to come first, and there is only one
  | late {version : ProtocolVersion} {extensions : List String} : p.point = .outside →
    p.messages ≠ [] →
      Refuses config p phase (.handshake version extensions)
        (.unexpectedMessage ServerMessage.handshakeTag .awaitingAuthOrReady)
  | version {version : ProtocolVersion} {extensions : List String} : p.messages = [] →
    version ≠ .current →
      Refuses config p phase (.handshake version extensions) (.unsupportedVersion version)
  -- in place of the first server string
  | serverFirst {methods : List Bytes} {conversation conversation' : Scram.Conversation}
    {data : String} {e : AuthError} : p.point = .challenged methods →
    phase = .serverFirst conversation → conversation.step data = .error e conversation' →
      Refuses config p phase (.authentication (.saslContinue data)) (.auth e)
  | statusFirst {methods : List Bytes} {request : Authentication} :
    p.point = .challenged methods → request.status ≠ 0xb →
      Refuses config p phase (.authentication request) (.auth (.unexpectedStatus request.status))
  -- in place of the last server string, which may come only once and has to come
  | serverFinal {methods : List Bytes} {text : String}
    {conversation conversation' : Scram.Conversation} {data : String} {e : AuthError} :
    p.point = .answered methods text →
    phase = .serverFinal conversation → conversation.step data = .error e conversation' →
      Refuses config p phase (.authentication (.saslFinal data)) (.auth e)
  | again {methods : List Bytes} {first final data : String} :
    p.point = .verified methods first final →
      Refuses config p phase (.authentication (.saslFinal data)) (.auth .finished)
  | noSignature {methods : List Bytes} {text : String} : p.point = .answered methods text →
      Refuses config p phase (.authentication .ok) (.auth (.malformed .noServerSignature))
  | statusFinal {request : Authentication} : p.point.AwaitsEnd →
    request.status ≠ 0 → request.status ≠ 0xc →
      Refuses config p phase (.authentication request) (.auth (.unexpectedStatus request.status))
  -- anywhere in an exchange
  | foreign {m : ServerMessage} : p.point ≠ .outside →
    (∀ request, m ≠ .authentication request) → (∀ e, m ≠ .error e) →
      Refuses config p phase m (.unexpectedMessage m.tag .authenticating)

namespace Progress

variable {config : Config} {nonces : NonceSource} {p : Progress} {said : List ClientMessage}
  {h : Handshake}

theorem messages_eq_nil_iff : p.messages = [] ↔ p.state = .awaitingServerHandshake := by
  rw [state_eq_awaitingServerHandshake]
  constructor
  · intro hp
    obtain ⟨proposal, turns, point⟩ := p
    simp only [messages, List.append_eq_nil_iff] at hp
    obtain ⟨⟨hproposal, hturns⟩, hpoint⟩ := hp
    have h1 : proposal = none := by
      cases proposal with
      | none => rfl
      | some => exact absurd hproposal (by simp)
    have h2 : turns = [] := by
      cases turns with
      | nil => rfl
      | cons t turns => cases t <;> exact absurd hturns (by simp [Turn.messages])
    have h3 : point = .outside := by
      cases point with
      | outside => rfl
      | challenged | answered | verified => exact absurd hpoint (by simp [Point.messages])
    rw [h1, h2, h3]
  · rintro rfl
    rfl

theorem state_outside (hp : p.point = .outside) :
    p.state = if p.messages = [] then .awaitingServerHandshake else .awaitingAuthOrReady := by
  by_cases hnil : p.messages = []
  · rw [if_pos hnil]
    exact messages_eq_nil_iff.mp hnil
  · rw [if_neg hnil]
    have hstate := mt messages_eq_nil_iff.mpr hnil
    unfold state at *
    rw [hp] at *
    dsimp only at *
    split
    · rename_i hfirst
      exact absurd (if_pos hfirst) hstate
    · rfl

theorem state_inside (hp : p.point ≠ .outside) : p.state = .authenticating := by
  unfold state
  cases hpoint : p.point with
  | outside => exact absurd hpoint hp
  | challenged | answered | verified => rfl

/-- The phase of a client that has gone along, with the stage of its conversation. -/
def Waits (p : Progress) (phase : Phase) : Prop :=
  match p.point with
  | .outside => phase = .negotiating
  | .challenged _ => ∃ conversation, phase = .serverFirst conversation
  | .answered .. => ∃ conversation secrets, phase = .serverFinal conversation ∧
      conversation.stage = .awaitingServerFinal secrets
  | .verified .. => ∃ conversation secrets, phase = .serverFinal conversation ∧
      conversation.stage = .done secrets

theorem Accepted.waits (hp : p.Accepted config nonces said h) :
    h.session = p.session ∧ p.Waits h.phase := by
  obtain ⟨proposal, turns, point⟩ := p
  obtain ⟨-, hpoint⟩ := hp
  refine ⟨rfl, ?_⟩
  cases point with
  | outside =>
    cases hpoint
    rfl
  | challenged methods =>
    obtain ⟨_, -, -, rfl⟩ := hpoint.of_challenged
    exact ⟨_, rfl⟩
  | answered methods first =>
    obtain ⟨_, secrets, _, -, -, -, rfl⟩ := hpoint.of_answered
    exact ⟨_, secrets, rfl, rfl⟩
  | verified methods first final =>
    obtain ⟨_, secrets, _, -, -, -, -, rfl⟩ := hpoint.of_verified
    exact ⟨_, secrets, rfl, rfl⟩

section

variable {phase : Phase}

theorem Waits.outside (hw : p.Waits phase) (hp : p.point = .outside) : phase = .negotiating := by
  unfold Waits at hw
  rw [hp] at hw
  exact hw

theorem Waits.challenged {methods : List Bytes} (hw : p.Waits phase)
    (hp : p.point = .challenged methods) : ∃ conversation, phase = .serverFirst conversation := by
  unfold Waits at hw
  rw [hp] at hw
  exact hw

theorem Waits.answered {methods : List Bytes} {text : String} (hw : p.Waits phase)
    (hp : p.point = .answered methods text) :
    ∃ conversation secrets, phase = .serverFinal conversation ∧
      conversation.stage = .awaitingServerFinal secrets := by
  unfold Waits at hw
  rw [hp] at hw
  exact hw

theorem Waits.verified {methods : List Bytes} {first final : String} (hw : p.Waits phase)
    (hp : p.point = .verified methods first final) :
    ∃ conversation secrets, phase = .serverFinal conversation ∧
      conversation.stage = .done secrets := by
  unfold Waits at hw
  rw [hp] at hw
  exact hw

theorem Waits.awaitsEnd (hw : p.Waits phase) (hp : p.point.AwaitsEnd) :
    ∃ conversation, phase = .serverFinal conversation := by
  cases hpoint : p.point with
  | outside | challenged => exact absurd hp (by simp [hpoint, Point.AwaitsEnd])
  | answered =>
    obtain ⟨conversation, _, hphase, -⟩ := hw.answered hpoint
    exact ⟨conversation, hphase⟩
  | verified =>
    obtain ⟨conversation, _, hphase, -⟩ := hw.verified hpoint
    exact ⟨conversation, hphase⟩

theorem Waits.inside (hw : p.Waits phase) (hp : p.point ≠ .outside) : phase ≠ .negotiating := by
  cases hpoint : p.point with
  | outside => exact absurd hpoint hp
  | challenged =>
    obtain ⟨_, rfl⟩ := hw.challenged hpoint
    simp
  | answered | verified =>
    obtain ⟨_, rfl⟩ := hw.awaitsEnd (by simp [hpoint, Point.AwaitsEnd])
    simp

end

end Progress

/-- Whether a move ends the handshake with an error. -/
def Move.GivesUp (e : ConnectionError) : Move → Prop
  | .fail e' _ | .hangUp e' _ => e' = e
  | .wait _ | .say .. | .finish _ => False

section

variable {config : Config} {p : Progress} {phase : Phase} {nonces : NonceSource}
  {m : ServerMessage} {e : ConnectionError}

/-- A client that refuses a message gives up, and says why. -/
theorem Refuses.givesUp (hw : p.Waits phase) (hr : Refuses config p phase m e) :
    (Handshake.react config ⟨p.session, phase, nonces⟩ m).GivesUp e := by
  cases hr with
  | error e => cases phase <;> exact Eq.refl _
  | @status request hp h0 ha =>
    obtain rfl := hw.outside hp
    cases request with
    | ok => exact absurd rfl h0
    | sasl => exact absurd rfl ha
    | saslContinue | saslFinal | other => exact Eq.refl _
  | missingPassword hp hnone =>
    obtain rfl := hw.outside hp
    show (Handshake.beginExchange config _).GivesUp _
    unfold Handshake.beginExchange
    rw [hnone]
    exact Eq.refl _
  | unknown hp =>
    obtain rfl := hw.outside hp
    rw [← Progress.state_outside hp]
    exact Eq.refl _
  | late hp hlate =>
    obtain rfl := hw.outside hp
    have hstate := Progress.state_outside hp
    rw [if_neg hlate] at hstate
    rw [Handshake.react_handshake, Progress.session_state, hstate, if_neg (by decide)]
    exact Eq.refl _
  | version hfirst hv =>
    have hstate := Progress.messages_eq_nil_iff.mp hfirst
    obtain rfl := Progress.state_eq_awaitingServerHandshake.mp hstate
    obtain rfl := hw.outside rfl
    rw [Handshake.react_handshake, Progress.session_state, if_pos hstate, if_neg hv]
    exact Eq.refl _
  | serverFirst hp hphase hs =>
    obtain rfl := hphase
    simp [Handshake.react, Handshake.reactServerFirst, hs, Move.GivesUp]
  | @statusFirst _ request hp hb =>
    obtain ⟨conversation, rfl⟩ := hw.challenged hp
    cases request with
    | saslContinue => exact absurd rfl hb
    | ok | sasl | saslFinal | other => exact Eq.refl _
  | serverFinal hp hphase hs =>
    obtain rfl := hphase
    simp [Handshake.react, Handshake.reactServerFinal, hs, Move.GivesUp]
  | again hp =>
    obtain ⟨conversation, secrets, rfl, hstage⟩ := hw.verified hp
    simp [Handshake.react, Handshake.reactServerFinal, Scram.Conversation.step_done hstage,
      Move.GivesUp]
  | noSignature hp =>
    obtain ⟨conversation, secrets, rfl, hstage⟩ := hw.answered hp
    simp [Handshake.react, Handshake.reactServerFinal, Scram.Conversation.isDone, hstage,
      Move.GivesUp]
  | @statusFinal request hp h0 hc =>
    obtain ⟨conversation, rfl⟩ := hw.awaitsEnd hp
    cases request with
    | ok => exact absurd rfl h0
    | saslFinal => exact absurd rfl hc
    | sasl | saslContinue | other => exact Eq.refl _
  | foreign hp ha he =>
    rw [← Progress.state_inside hp]
    cases phase with
    | negotiating => exact absurd rfl (hw.inside hp)
    | serverFirst | serverFinal =>
      cases m with
      | authentication request => exact absurd rfl (ha request)
      | error e => exact absurd rfl (he e)
      | handshake | keyData | readyForCommand | unknown => exact Eq.refl _

/-- Within an exchange a message that is no request is refused for what it is. -/
theorem Refuses.of_givesUp_foreign (hp : p.point ≠ .outside) (hphase : phase ≠ .negotiating)
    (ha : ∀ request, m ≠ .authentication request)
    (hg : (Handshake.react config ⟨p.session, phase, nonces⟩ m).GivesUp e) :
    Refuses config p phase m e := by
  have hstate := Progress.state_inside hp
  cases phase with
  | negotiating => exact absurd rfl hphase
  | serverFirst conversation | serverFinal conversation =>
    cases m with
    | authentication request => exact absurd rfl (ha request)
    | error =>
      obtain rfl : _ = e := hg
      exact .error _
    | handshake | keyData | readyForCommand | unknown =>
      obtain rfl : _ = e := hg
      rw [Progress.session_state, hstate]
      exact .foreign hp (by simp) (by simp)

/-- Requests that may come neither as the last server string nor as the end of an exchange. -/
theorem Refuses.of_givesUp_statusFinal {request : Authentication}
    {conversation : Scram.Conversation} (hp : p.point.AwaitsEnd) (hproper : request.IsProper)
    (hok : request ≠ .ok) (hfinal : ∀ data, request ≠ .saslFinal data)
    (hg : (Handshake.react config ⟨p.session, .serverFinal conversation, nonces⟩
      (.authentication request)).GivesUp e) :
    Refuses config p phase (.authentication request) e := by
  cases request with
  | ok => exact absurd rfl hok
  | saslFinal data => exact absurd rfl (hfinal data)
  | sasl | saslContinue =>
    obtain rfl : _ = e := hg
    exact .statusFinal hp (by simp [Authentication.status]) (by simp [Authentication.status])
  | other status =>
    obtain rfl : _ = e := hg
    exact .statusFinal hp hproper.1 hproper.2.2.2

theorem Refuses.of_givesUp_outside (hp : p.point = .outside)
    (hm : ∀ request, m = .authentication request → request.IsProper)
    (hg : (Handshake.react config ⟨p.session, .negotiating, nonces⟩ m).GivesUp e) :
    Refuses config p phase m e := by
  have hstate := Progress.state_outside hp
  cases m with
  | handshake version extensions =>
    rw [Handshake.react_handshake, Progress.session_state, hstate] at hg
    by_cases hfirst : p.messages = []
    · rw [if_pos hfirst, if_pos rfl] at hg
      by_cases hv : version = .current
      · rw [if_pos hv] at hg
        exact hg.elim
      · rw [if_neg hv] at hg
        obtain rfl : _ = e := hg
        exact .version hfirst hv
    · rw [if_neg hfirst, if_neg (by decide)] at hg
      obtain rfl : _ = e := hg
      exact .late hp hfirst
  | keyData | readyForCommand => exact hg.elim
  | authentication request =>
    cases request with
    | ok => exact hg.elim
    | sasl methods =>
      have hbegin : (Handshake.beginExchange config _).GivesUp e := hg
      unfold Handshake.beginExchange at hbegin
      cases hpassword : config.password with
      | none =>
        rw [hpassword] at hbegin
        obtain rfl : _ = e := hbegin
        exact .missingPassword hp hpassword
      | some password =>
        rw [hpassword] at hbegin
        exact hbegin.elim
    | saslContinue | saslFinal =>
      obtain rfl : _ = e := hg
      exact .status hp (by simp [Authentication.status]) (by simp [Authentication.status])
    | other status =>
      obtain rfl : _ = e := hg
      exact .status hp (hm _ rfl).1 (hm _ rfl).2.1
  | error =>
    obtain rfl : _ = e := hg
    exact .error _
  | unknown =>
    obtain rfl : _ = e := hg
    rw [Progress.session_state, hstate]
    exact .unknown hp

/-- A client gives up over a message that was decoded only for the reasons in the table. -/
theorem Refuses.of_givesUp (hw : p.Waits phase)
    (hm : ∀ request, m = .authentication request → request.IsProper)
    (hg : (Handshake.react config ⟨p.session, phase, nonces⟩ m).GivesUp e) :
    Refuses config p phase m e := by
  cases hp : p.point with
  | outside =>
    obtain rfl := hw.outside hp
    exact .of_givesUp_outside hp hm hg
  | challenged methods =>
    obtain ⟨conversation, rfl⟩ := hw.challenged hp
    cases m with
    | authentication request =>
      cases request with
      | saslContinue data =>
        cases hs : conversation.step data with
        | ok reply next =>
          rw [Handshake.react_saslContinue config hs] at hg
          exact hg.elim
        | error e' next =>
          simp only [Handshake.react, Handshake.reactServerFirst, hs] at hg
          obtain rfl : _ = e := hg
          exact .serverFirst hp rfl hs
      | ok | sasl | saslFinal =>
        obtain rfl : _ = e := hg
        exact .statusFirst hp (by simp [Authentication.status])
      | other status =>
        obtain rfl : _ = e := hg
        exact .statusFirst hp (hm _ rfl).2.2.1
    | handshake | keyData | readyForCommand | error | unknown =>
      exact .of_givesUp_foreign (by simp [hp]) (by simp) (by simp) hg
  | answered methods first =>
    obtain ⟨conversation, secrets, rfl, hstage⟩ := hw.answered hp
    have hend : p.point.AwaitsEnd := by simp [hp, Point.AwaitsEnd]
    cases m with
    | authentication request =>
      cases request with
      | saslFinal data =>
        cases hs : conversation.step data with
        | ok reply next =>
          rw [Handshake.react_saslFinal config hs] at hg
          exact hg.elim
        | error e' next =>
          simp only [Handshake.react, Handshake.reactServerFinal, hs] at hg
          obtain rfl : _ = e := hg
          exact .serverFinal hp rfl hs
      | ok =>
        simp only [Handshake.react, Handshake.reactServerFinal, Scram.Conversation.isDone,
          hstage] at hg
        obtain rfl : _ = e := hg
        exact .noSignature hp
      | sasl | saslContinue | other =>
        exact .of_givesUp_statusFinal hend (hm _ rfl) (by simp) (by simp) hg
    | handshake | keyData | readyForCommand | error | unknown =>
      exact .of_givesUp_foreign (by simp [hp]) (by simp) (by simp) hg
  | verified methods first final =>
    obtain ⟨conversation, secrets, rfl, hstage⟩ := hw.verified hp
    have hend : p.point.AwaitsEnd := by simp [hp, Point.AwaitsEnd]
    cases m with
    | authentication request =>
      cases request with
      | saslFinal data =>
        simp only [Handshake.react, Handshake.reactServerFinal,
          Scram.Conversation.step_done hstage] at hg
        obtain rfl : _ = e := hg
        exact .again hp
      | ok =>
        rw [Handshake.react_ok config (by simp [Scram.Conversation.isDone, hstage])] at hg
        exact hg.elim
      | sasl | saslContinue | other =>
        exact .of_givesUp_statusFinal hend (hm _ rfl) (by simp) (by simp) hg
    | handshake | keyData | readyForCommand | error | unknown =>
      exact .of_givesUp_foreign (by simp [hp]) (by simp) (by simp) hg

end

namespace Connection

variable {config : Config} {nonces : NonceSource} {peer : Peer} {frames : List Frame}
  {p : Progress} {said : List ClientMessage} {h : Handshake} {m : ServerMessage}
  {rest : List ServerMessage}

/-- What the client does to the transport when it refuses a message. -/
def eventsOfRefusal : ConnectionError → List Event
  | .unsupportedVersion _ => [.shutdown]
  | _ => []

theorem startup_of_refuses {c : Connection} {bytes : Bytes} (hc : c.IsSteady) (hs : c.session = {})
    (hp : p.Accepted config nonces said h) (hu : Carries c.unread (p.messages ++ m :: rest) bytes)
    (he : ∀ m ∈ Handshake.proposal config :: said, m.Encodable) {e : ConnectionError}
    (hr : Refuses config p h.phase m e) :
    ∃ c' events, startup config nonces c = .error (.failed e) c' ∧
      c'.session = { p.session with state := .failed } ∧
      Sent (ClientMessage.stream (Handshake.proposal config :: said)) c.transport.events events ∧
      c'.transport.events = events ++ eventsOfRefusal e := by
  obtain ⟨c₁, hreach, hsteady, hu₁⟩ := reaches_of_accepted hc hs hp hu he
  obtain ⟨c₂, hh, -, -⟩ := hears_of_steady h hsteady hu₁
  obtain ⟨hsent, -⟩ := hreach.sent hc.idle
  obtain ⟨hsession, hwaits⟩ := hp.waits
  have hfollows := hp.follows m
  have hgives : (h.react config m).GivesUp e := by
    obtain ⟨session, phase, left⟩ := h
    obtain rfl : session = p.session := hsession
    exact hr.givesUp hwaits
  rw [← hh.events_eq] at hsent
  cases hmove : h.react config m with
  | wait | say | finish =>
    rw [hmove] at hgives
    exact hgives.elim
  | fail e' session =>
    have hstart := hreach.startup_of_ends hs (.fail hh hmove)
    rw [hmove] at hgives hfollows
    obtain rfl : e' = e := hgives
    cases hfollows with
    | fail hsame hversion =>
      refine ⟨_, _, hstart, hsame, hsent, ?_⟩
      have hnone : eventsOfRefusal e' = [] := by
        unfold eventsOfRefusal
        split
        · rename_i version
          exact absurd rfl (hversion version)
        · rfl
      rw [hnone, List.append_nil]
  | hangUp e' session =>
    have hstart := hreach.startup_of_ends hs (.hangUp hh hmove)
    rw [hmove] at hgives hfollows
    obtain rfl : e' = e := hgives
    cases hfollows with
    | hangUp => exact ⟨_, _, hstart, rfl, hsent, c₂.transport.events_cons .shutdown⟩

/-- After whatever messages a handshake has gone along with, the next one decides. If there is a
reason to refuse it, the start fails for that reason and the connection for good, and the transport
is closed only over a version; if there is none, the handshake goes on or is done. -/
theorem startup_refuses (hpeer : peer.Speaks frames)
    (hdecode : frames.map ServerMessage.decode = (p.messages ++ m :: rest).map .ok)
    (hlen : ∀ f ∈ frames, f.toBytes.length < 2 ^ 30)
    (huser : (Bytes.ofString config.user).length < 2 ^ 30)
    (hdatabase : (Bytes.ofString config.database).length < 2 ^ 30)
    (hp : p.Accepted config nonces said h) :
    (∀ e, Refuses config p h.phase m e →
      ∃ c' events, startup config nonces { transport := .toPeer peer } = .error (.failed e) c' ∧
        c'.session = { p.session with state := .failed } ∧
        Sent (ClientMessage.stream (Handshake.proposal config :: said)) [] events ∧
        c'.transport.events = events ++ eventsOfRefusal e) ∧
    ((∃ e, Refuses config p h.phase m e) ∨
      (∃ (q : Progress) (said' : List ClientMessage) (h' : Handshake),
        q.messages = p.messages ++ [m] ∧ q.Accepted config nonces said' h') ∨
      p.point = .outside ∧ ∃ transaction, m = .readyForCommand transaction) := by
  refine ⟨fun e hr => ?_, ?_⟩
  · exact startup_of_refuses (isSteady_of_speaks hpeer) rfl hp
      (carries_of_speaks hpeer hdecode hlen)
      (hp.encodable_of_frames hdecode hlen huser hdatabase) hr
  · obtain ⟨hsession, hwaits⟩ := hp.waits
    have hfollows := hp.follows m
    cases hmove : h.react config m with
    | wait next =>
      rw [hmove] at hfollows
      cases hfollows with
      | wait hmessages hq => exact Or.inr (Or.inl ⟨_, _, _, hmessages, hq⟩)
    | say reply next =>
      rw [hmove] at hfollows
      cases hfollows with
      | say hmessages hq => exact Or.inr (Or.inl ⟨_, _, _, hmessages, hq⟩)
    | finish session =>
      rw [hmove] at hfollows
      cases hfollows with
      | finish hm hpoint => exact Or.inr (Or.inr ⟨hpoint, _, hm⟩)
    | fail e session | hangUp e session =>
      have hm : ∀ request, m = .authentication request → request.IsProper := by
        rintro request rfl
        have hmem : Except.ok (.authentication request) ∈ frames.map ServerMessage.decode := by
          rw [hdecode]
          exact List.mem_map_of_mem (by simp)
        obtain ⟨f, -, hf⟩ := List.mem_map.mp hmem
        exact (ServerMessage.decode_authentication hf).2
      have hgives : (h.react config m).GivesUp e := by
        rw [hmove]
        exact Eq.refl _
      obtain ⟨session, phase, left⟩ := h
      obtain rfl : session = p.session := hsession
      exact Or.inl ⟨e, .of_givesUp hwaits hm hgives⟩

/-- A peer that names another version than the client's. -/
def newerPeer : Peer where
  deliveries := [.bytes (Frame.toBytes ⟨ServerMessage.handshakeTag, [0, 1, 0, 0, 0, 0]⟩)]

/-- The frames of a server that demands a proof and then reports an error in place of its first
string. -/
def rejectingFrames : List Frame :=
  introduction ++ [Authentication.frame (.sasl [Bytes.ofString Scram.mechanism]),
    Authentication.frame (.saslContinue "e=no")]

/-- A peer that sends these frames. -/
def rejectingPeer : Peer where
  deliveries := [.bytes (rejectingFrames.flatMap Frame.toBytes)]

/-- The first peer is told nothing but the proposal, and the transport is closed. The second one is
told the user's name as well: the client has gone along with its version, its key and its demand
before it refuses the string, and keeps what it has learned. -/
theorem startup_refuses_newerPeer_and_rejectingPeer :
    (∃ c' events, startup (.forUser "edgedb") ⟨fun _ => 0, 0⟩ { transport := .toPeer newerPeer } =
        .error (.failed (.unsupportedVersion ⟨1, 0⟩)) c' ∧
      c'.session = { state := .failed } ∧
      Sent (ClientMessage.stream [Handshake.proposal (.forUser "edgedb")]) [] events ∧
      c'.transport.events = events ++ [.shutdown]) ∧
    ∃ c' events, startup pencilConfig ⟨fun _ => 0, 0⟩ { transport := .toPeer rejectingPeer } =
        .error (.failed (.auth (.rejected "no"))) c' ∧
      c'.session = { state := .failed
                     version := some .current
                     keyData := some (List.replicate 32 1) } ∧
      Sent (ClientMessage.stream [Handshake.proposal pencilConfig,
        .saslInitial Scram.mechanism "n,,n=user,r=AAAAAAAAAAAAAAAAAAAAAAAA"]) [] events ∧
      c'.transport.events = events := by
  constructor
  · have hpeer : newerPeer.Speaks [⟨ServerMessage.handshakeTag, [0, 1, 0, 0, 0, 0]⟩] :=
      Peer.speaks_at_once [_]
    have hname : (Bytes.ofString "edgedb").length < 2 ^ 30 := by decide
    have hrefuses : Refuses (.forUser "edgedb") {} .negotiating (.handshake ⟨1, 0⟩ [])
        (.unsupportedVersion ⟨1, 0⟩) := .version rfl (by decide)
    exact (@startup_refuses (.forUser "edgedb") ⟨fun _ => 0, 0⟩ _ _ {} _ _ (.handshake ⟨1, 0⟩ [])
      [] hpeer (by decide) (by decide) hname hname (.start _ _)).1 _ hrefuses
  · let nonces : NonceSource := ⟨fun _ => 0, 0⟩
    let methods := [Bytes.ofString Scram.mechanism]
    let p : Progress := ⟨some [], [.keyData (List.replicate 32 1)], .challenged methods⟩
    have hpeer : rejectingPeer.Speaks rejectingFrames := Peer.speaks_at_once _
    have hdecode : rejectingFrames.map ServerMessage.decode =
        (p.messages ++ [ServerMessage.authentication (.saslContinue "e=no")]).map .ok := by
      decide
    have hname : (Bytes.ofString "user").length < 2 ^ 30 := by decide
    have hp : p.Accepted pencilConfig nonces _ _ :=
      .mk (.keyData _ (.nil _)) (Point.accepted_challenged nonces rfl methods)
    have hrefuses : Refuses pencilConfig p
        (.serverFirst (Point.Accepted.conversation pencilConfig nonces "pencil" .awaitingServerFirst))
        (.authentication (.saslContinue "e=no")) (.auth (.rejected "no")) :=
      .serverFirst rfl rfl (Scram.Conversation.step_of_readServerFirst_error rfl (by decide))
    obtain ⟨c', events, hstart, hsession, hsent, hevents⟩ :=
      (startup_refuses hpeer hdecode (by decide) hname hname hp).1 _ hrefuses
    exact ⟨c', events, hstart, hsession, hsent, hevents.trans (List.append_nil events)⟩

end Connection

end EdgeClient
