import EdgeClient.Proofs.Connection.Refusal

/-!
# The version gate

There is one version, and a server may propose another one only in its first message: the client
still awaits the server's handshake then, and closes the transport over it. Once the server has said
anything else the version counts as settled, and a proposal is a message out of place like any
other, over which the transport stays open (`startup_versionGate`). Which of the two it is depends
on the order of the messages alone, not on how the transport fares.
-/

namespace EdgeClient.Connection

variable {config : Config} {nonces : NonceSource} {c c₁ c₂ : Connection}
  {ms : List ServerMessage} {said : List ClientMessage} {h : Handshake} {m : ServerMessage}

/-- A client waits for nothing over a message that means no work. -/
theorem Hears.of_recv (hr : recv { c with session := h.session } = .ok m c₁)
    (hw : h.meansWork m = false) : Hears h c m c₁ := by
  refine ⟨hr, ?_⟩
  rw [toleratesWork, hw]
  rfl

/-- Outside an exchange the client awaits the server's handshake before its first message, and only
then. -/
theorem Reaches.state_of_negotiating (hr : Reaches config nonces c ms said h c₁)
    (hc : c.outbox.IsIdle) (hs : c.session = {}) (hphase : h.phase = .negotiating) :
    h.session.state = if ms = [] then .awaitingServerHandshake else .awaitingAuthOrReady := by
  obtain ⟨p, rfl, hp⟩ := hr.exists_progress hc hs
  obtain ⟨hsession, hwaits⟩ := hp.waits
  have hpoint : p.point = .outside := by
    by_contra hinside
    exact hwaits.inside hinside hphase
  rw [hsession, Progress.session_state, Progress.state_outside hpoint]

/-- Another version than the client's ends the start wherever it is proposed outside an exchange,
and nothing more is written. If it is proposed first, the transport is closed, whether that succeeds
or not, and the error names the version. After any other message the proposal is unexpected, and the
transport is not closed. -/
theorem startup_versionGate (hc : c.outbox.IsIdle) (hs : c.session = {})
    (hreach : Reaches config nonces c ms said h c₁) (hphase : h.phase = .negotiating)
    {version : ProtocolVersion} {extensions : List String}
    (hrecv : recv { c₁ with session := h.session } = .ok (.handshake version extensions) c₂)
    (hversion : version ≠ .current) :
    ∃ c', startup config nonces c =
        .error (.failed (if ms = [] then .unsupportedVersion version
          else .unexpectedMessage ServerMessage.handshakeTag .awaitingAuthOrReady)) c' ∧
      c'.session = { h.session with state := .failed } ∧
      c'.transport.events = c₁.transport.events ++ if ms = [] then [.shutdown] else [] := by
  have hstate := hreach.state_of_negotiating hc hs hphase
  obtain ⟨session, phase, left⟩ := h
  obtain rfl : phase = .negotiating := hphase
  have hhears : Hears ⟨session, .negotiating, left⟩ c₁ (.handshake version extensions) c₂ :=
    .of_recv hrecv rfl
  have hmove := Handshake.react_handshake config session left version extensions
  by_cases hfirst : ms = []
  · rw [if_pos hfirst] at hstate
    rw [if_pos hstate, if_neg hversion] at hmove
    rw [hreach.startup_of_ends hs (.hangUp hhears hmove), if_pos hfirst, if_pos hfirst]
    refine ⟨_, rfl, rfl, ?_⟩
    rw [← hhears.events_eq]
    exact c₂.transport.events_cons .shutdown
  · rw [if_neg hfirst] at hstate
    rw [if_neg (by rw [hstate]; decide), hstate] at hmove
    rw [hreach.startup_of_ends hs (.fail hhears hmove), if_neg hfirst, if_neg hfirst,
      List.append_nil]
    exact ⟨_, rfl, rfl, hhears.events_eq⟩

/-! ## A first proposal and a late one -/

/-- The frame of a server that proposes version 1.0. -/
def newerFrame : Frame := ⟨ServerMessage.handshakeTag, [0, 1, 0, 0, 0, 0]⟩

/-- A peer that proposes version 1.0 at once, and does not let the transport be closed. -/
def stubbornPeer : Peer where
  deliveries := [.bytes newerFrame.toBytes]
  limits := { shutdownFailure := some .brokenPipe }

/-- A peer that proposes version 1.0 after it has said that no proof is needed. -/
def latePeer : Peer where
  deliveries :=
    [.bytes (Frame.toBytes ⟨ServerMessage.authenticationTag, [0, 0, 0, 0]⟩ ++ newerFrame.toBytes)]

theorem encodable_proposal_edgedb :
    ∀ m ∈ [Handshake.proposal (.forUser "edgedb")], m.Encodable := by
  intro m hm
  obtain rfl := List.mem_singleton.mp hm
  exact Handshake.encodable_proposal (by decide) (by decide)

/-- The stubborn peer gets the transport closed all the same. -/
theorem startup_versionGate_stubbornPeer :
    ∃ c' events, startup (.forUser "edgedb") ⟨fun _ => 0, 0⟩ { transport := .toPeer stubbornPeer } =
        .error (.failed (.unsupportedVersion ⟨1, 0⟩)) c' ∧
      c'.session = { state := .failed } ∧
      Sent (ClientMessage.stream [Handshake.proposal (.forUser "edgedb")]) [] events ∧
      c'.transport.events = events ++ [.shutdown] := by
  have hpeer : stubbornPeer.Speaks [newerFrame] :=
    ⟨by simp [stubbornPeer, Delivery.IsCalm], by decide, ⟨rfl, by decide, rfl⟩⟩
  have hdecode : [newerFrame].map ServerMessage.decode = [.handshake ⟨1, 0⟩ []].map .ok := by decide
  have hcarries := carries_of_speaks hpeer hdecode (by decide)
  obtain ⟨c₁, hreach, hsteady, hu⟩ := reaches_of_accepted (isSteady_of_speaks hpeer) rfl
    (.start (.forUser "edgedb") ⟨fun _ => 0, 0⟩) hcarries encodable_proposal_edgedb
  obtain ⟨c₂, hhears, -, -⟩ := hears_of_steady (.afterProposal {} ⟨fun _ => 0, 0⟩) hsteady hu
  have hidle : Writer.IsIdle {} := rfl
  obtain ⟨hsent, -⟩ := hreach.sent hidle
  obtain ⟨c', hstart, hsession, hevents⟩ :=
    startup_versionGate hidle rfl hreach rfl hhears.received (by decide)
  exact ⟨c', _, hstart, hsession, hsent, hevents⟩

/-- The late peer is not told off for its version, and the transport stays open. -/
theorem not_versionGate_latePeer :
    ¬ ∀ ms said h c₁ c₂ version extensions,
      Reaches (.forUser "edgedb") ⟨fun _ => 0, 0⟩ { transport := .toPeer latePeer } ms said h c₁ →
      h.phase = .negotiating →
      recv { c₁ with session := h.session } = .ok (.handshake version extensions) c₂ →
      version ≠ .current →
      ∃ c', startup (.forUser "edgedb") ⟨fun _ => 0, 0⟩ { transport := .toPeer latePeer } =
          .error (.failed (.unsupportedVersion version)) c' ∧
        c'.transport.events = c₁.transport.events ++ [.shutdown] := by
  intro hgate
  have hpeer : latePeer.Speaks
      [⟨ServerMessage.authenticationTag, [0, 0, 0, 0]⟩, newerFrame] := Peer.speaks_at_once [_, _]
  have hdecode : [⟨ServerMessage.authenticationTag, [0, 0, 0, 0]⟩, newerFrame].map
      ServerMessage.decode = [.authentication .ok, .handshake ⟨1, 0⟩ []].map .ok := by
    decide
  have hcarries := carries_of_speaks hpeer hdecode (by decide)
  have hp : Progress.Accepted (.forUser "edgedb") ⟨fun _ => 0, 0⟩ ⟨none, [.authOk], .outside⟩ []
      ⟨Progress.session ⟨none, [.authOk], .outside⟩, .negotiating, ⟨fun _ => 0, 0⟩⟩ := by
    have hturns : Turns (.forUser "edgedb") ⟨fun _ => 0, 0⟩ [.authOk] [] ⟨fun _ => 0, 0⟩ :=
      .authOk (.nil _)
    exact .mk (p := ⟨none, [.authOk], .outside⟩) hturns .outside
  obtain ⟨c₁, hreach, hsteady, hu⟩ := reaches_of_accepted (isSteady_of_speaks hpeer) rfl hp hcarries
    encodable_proposal_edgedb
  obtain ⟨c₂, hhears, -, -⟩ := hears_of_steady
    ⟨Progress.session ⟨none, [.authOk], .outside⟩, .negotiating, ⟨fun _ => 0, 0⟩⟩ hsteady hu
  have hstart := hreach.startup_of_ends rfl (.fail hhears rfl)
  obtain ⟨c', hversion, -⟩ := hgate _ _ _ _ _ _ _ hreach rfl hhears.received (by decide)
  exact absurd (hversion.symm.trans hstart) (by simp [conclude])

end EdgeClient.Connection
