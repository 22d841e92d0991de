import EdgeClient.Proofs.Connection.ProvingServer
import EdgeClient.Proofs.Connection.Startup

/-!
# The handshakes that succeed

A server that sends the messages of a `Script` gets the connection set up: perhaps its version,
which has to be the client's own and has to come first, then any number of turns with which the
client goes along, and in the end the word that it is ready. What it sends after that does not
matter. `startup_ok_iff` says that no other sequence of messages does it, and what the connection is
like afterwards.
-/

namespace EdgeClient

/-- What a server says to get a connection set up. -/
structure Script where
  /-- The extensions that come with its version, if it names one. -/
  proposal : Option (List String) := none
  /-- Its turns. -/
  turns : List Turn
  /-- What it says about transactions when it is ready. -/
  transaction : TransactionState
  deriving DecidableEq, Repr

/-- The messages of a script. -/
def Script.messages (s : Script) : List ServerMessage :=
  (s.proposal.map (.handshake .current)).toList ++ s.turns.flatMap Turn.messages ++
    [.readyForCommand s.transaction]

namespace Connection

variable {config : Config} {nonces : NonceSource} {peer : Peer} {frames : List Frame}
  {messages : List ServerMessage}

/-- A script with which the client goes along sets the connection up. -/
theorem startup_of_script (hpeer : peer.Speaks frames)
    (hdecode : frames.map ServerMessage.decode = messages.map .ok)
    (hlen : ∀ f ∈ frames, f.toBytes.length < sizeBound)
    (huser : (Bytes.ofString config.user).length < sizeBound)
    (hdatabase : (Bytes.ofString config.database).length < sizeBound)
    {s : Script} {said : List ClientMessage} {nonces' : NonceSource}
    (hbegin : s.messages <+: messages) (ht : Turns config nonces s.turns said nonces') :
    ∃ c', startup config nonces { transport := .toPeer peer } = .ok () c' ∧
      c'.session = { state := .ready
                     version := some .current
                     keyData := (s.turns.filterMap Turn.key?).getLast?
                     transaction := s.transaction } ∧
      Sent (ClientMessage.stream (Handshake.proposal config :: said)) [] c'.transport.events := by
  obtain ⟨proposal, turns, transaction⟩ := s
  obtain ⟨rest, rfl⟩ := hbegin
  let p : Progress := ⟨proposal, turns, .outside⟩
  have hp := Progress.Accepted.mk (p := p) ht .outside
  rw [List.append_nil] at hp
  have hmessages : Script.messages ⟨proposal, turns, transaction⟩ ++ rest =
      p.messages ++ .readyForCommand transaction :: rest := by
    simp [Script.messages, Progress.messages, p, Point.messages]
  rw [hmessages] at hdecode
  have hcarries := carries_of_speaks hpeer hdecode hlen
  have hencodable := hp.encodable_of_frames hdecode hlen huser hdatabase
  have hsteady := isSteady_of_speaks hpeer
  obtain ⟨c₁, hreach, hsteady₁, hu⟩ := reaches_of_accepted hsteady rfl hp hcarries hencodable
  obtain ⟨c₂, hh, -, -⟩ := hears_of_steady _ hsteady₁ hu
  have hstart := hreach.startup_of_ends rfl
    (.finish hh (Progress.react_ready config proposal turns nonces' transaction))
  obtain ⟨hsent, -⟩ := hreach.sent hsteady.idle
  rw [← hh.events_eq] at hsent
  exact ⟨_, hstart, rfl, hsent⟩

/-- The handshakes that succeed are those in which the server's messages begin with a script with
which the client goes along. The connection is then ready, for the client's own version and with the
last key that was handed out; it has been used for the client's proposal and the two messages of
each exchange, and it has not been closed. -/
theorem startup_ok_iff (hpeer : peer.Speaks frames)
    (hdecode : frames.map ServerMessage.decode = messages.map .ok)
    (hlen : ∀ f ∈ frames, f.toBytes.length < 2 ^ 30)
    (huser : (Bytes.ofString config.user).length < 2 ^ 30)
    (hdatabase : (Bytes.ofString config.database).length < 2 ^ 30) :
    ((∃ c', startup config nonces { transport := .toPeer peer } = .ok () c') ↔
      ∃ s : Script, s.messages <+: messages ∧ ∃ said nonces', Turns config nonces s.turns said nonces') ∧
    ∀ c' (s : Script) said nonces', startup config nonces { transport := .toPeer peer } = .ok () c' →
      s.messages <+: messages → Turns config nonces s.turns said nonces' →
      c'.session = { state := .ready
                     version := some .current
                     keyData := (s.turns.filterMap Turn.key?).getLast?
                     transaction := s.transaction } ∧
      c'.transport.written = ClientMessage.stream (Handshake.proposal config :: said) ∧
      .shutdown ∉ c'.transport.events := by
  refine ⟨⟨?_, ?_⟩, ?_⟩
  · rintro ⟨c', hok⟩
    obtain ⟨⟨proposal, turns, point⟩, said, h, transaction, hp, hpoint, hcarries, -, -⟩ :=
      startup_ok (isSteady_of_speaks hpeer).idle rfl hok
    obtain rfl : point = .outside := hpoint
    obtain ⟨ht, -⟩ := hp
    have hbegin := hcarries.prefix_of_all (carries_of_speaks hpeer hdecode hlen)
    refine ⟨⟨proposal, turns, transaction⟩, ?_, _, _, ht⟩
    simpa [Script.messages, Progress.messages, Point.messages] using hbegin
  · rintro ⟨s, hbegin, said, nonces', ht⟩
    obtain ⟨c', hok, -⟩ := startup_of_script hpeer hdecode hlen huser hdatabase hbegin ht
    exact ⟨c', hok⟩
  · intro c' s said nonces' hok hbegin ht
    obtain ⟨c₁, hok', hsession, hsent⟩ :=
      startup_of_script hpeer hdecode hlen huser hdatabase hbegin ht
    obtain ⟨-, rfl⟩ := EStateM.Result.ok.inj (hok'.symm.trans hok)
    refine ⟨hsession, ?_, ?_⟩
    · have := hsent.bytes_eq
      rwa [List.flatMap_nil, List.nil_append] at this
    · have := hsent.count_shutdown
      rw [List.count_nil] at this
      exact List.count_eq_zero.mp this

/-- The frames of a server that names its version, hands out a key, demands a proof and gives its own
one, confirms once more, hands out another key, and is ready. -/
def provingFrames (nonces : NonceSource) : List Frame :=
  introduction ++ (pencilRequests nonces).map Authentication.frame ++
    [⟨ServerMessage.authenticationTag, [0, 0, 0, 0]⟩,
      ⟨ServerMessage.keyDataTag, List.replicate 32 2⟩,
      ⟨ServerMessage.readyForCommandTag, [0, 0, 0x54]⟩]

/-- A peer that sends these frames in two chunks, the second one after a pause. -/
def provingPeer (nonces : NonceSource) : Peer where
  deliveries :=
    [.bytes (((provingFrames nonces).flatMap Frame.toBytes).take 7), .pause 40,
      .bytes (((provingFrames nonces).flatMap Frame.toBytes).drop 7)]

/-- Such a server gets the connection set up: the client keeps the key that came last, and has said
no more than its proposal and its two strings of the exchange. -/
theorem startup_ok_of_provingPeer :
    ∃ c' clientFinal,
      startup pencilConfig ⟨fun _ => 0, 0⟩
        { transport := .toPeer (provingPeer ⟨fun _ => 0, 0⟩) } = .ok () c' ∧
      c'.session = { state := .ready
                     version := some .current
                     keyData := some (List.replicate 32 2)
                     transaction := .inTransaction } ∧
      c'.transport.written = ClientMessage.stream [Handshake.proposal pencilConfig,
        .saslInitial Scram.mechanism "n,,n=user,r=AAAAAAAAAAAAAAAAAAAAAAAA",
        .saslResponse clientFinal] ∧
      .shutdown ∉ c'.transport.events := by
  let nonces : NonceSource := ⟨fun _ => 0, 0⟩
  have hpeer : (provingPeer nonces).Speaks (provingFrames nonces) :=
    ⟨by simp [provingPeer, Delivery.IsCalm], by simp [provingPeer, Delivery.chunk],
      ⟨rfl, by simp [provingPeer], rfl⟩⟩
  obtain ⟨hdecode, hlen⟩ := @decode_around_pencilRequests nonces introduction
    [⟨ServerMessage.authenticationTag, [0, 0, 0, 0]⟩,
      ⟨ServerMessage.keyDataTag, List.replicate 32 2⟩,
      ⟨ServerMessage.readyForCommandTag, [0, 0, 0x54]⟩]
    [.handshake .current [], .keyData (List.replicate 32 1)]
    [.authentication .ok, .keyData (List.replicate 32 2), .readyForCommand .inTransaction]
    (by decide) (by decide) (by decide)
  have hname : (Bytes.ofString "user").length < 2 ^ 30 := by decide
  have hiff := @startup_ok_iff pencilConfig nonces _ _ _ hpeer hdecode hlen hname hname
  obtain ⟨said, phase, hserver⟩ := @Point.accepted_of_server pencilConfig "pencil" nonces rfl
    [Bytes.ofString Scram.mechanism] ['x'] (by decide) (by decide) [0x41, 0x25] 4096
    (by decide) (by decide)
  obtain ⟨_, _, clientFinal, -, -, -, rfl, -⟩ := hserver.of_verified
  have ht : Turns pencilConfig nonces [.keyData (List.replicate 32 1), .exchange _ _ _, .authOk,
      .keyData (List.replicate 32 2)] _ nonces.next :=
    .keyData _ (.exchange hserver (.authOk (.keyData _ (.nil _))))
  obtain ⟨c', hok⟩ := hiff.1.mpr ⟨⟨some [], _, .inTransaction⟩, List.prefix_rfl, _, _, ht⟩
  obtain ⟨hsession, hwritten, hopen⟩ :=
    hiff.2 c' ⟨some [], _, .inTransaction⟩ _ _ hok List.prefix_rfl ht
  exact ⟨c', clientFinal, hok, hsession, hwritten, hopen⟩

end Connection

end EdgeClient
