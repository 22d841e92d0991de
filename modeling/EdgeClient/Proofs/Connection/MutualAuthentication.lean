import EdgeClient.Proofs.Connection.Acceptance

/-!
# A challenge ends in proof from both sides

Whatever a server sends, and whatever the transport does: when a connection gets set up, every
demand for a proof was followed by an exchange in which the server has proved in turn that it knows
the password. What it has signed are the strings of that very exchange, those of the client as they
were written to the transport.
-/

namespace EdgeClient

namespace Scram

/-- The first `v=` part of the last server string is a signature under the password, over what both
sides have said before: the first client string without its header, the first server string, and the
last client string up to its proof. The salt and the number of iterations are the last ones in the
first server string, and the signature is a whole authentication code. -/
def Signed (password clientFirst serverFirst clientFinal serverFinal : String) : Prop :=
  ∃ bare salt iterations withoutProof proof,
    clientFirst.toList = "n,,".toList ++ bare ∧
    (lastValue 's' serverFirst.toList).bind Base64.decode = some salt ∧
    (lastValue 'i' serverFirst.toList).bind number? = some iterations ∧
    splitAtLast ",p=".toList clientFinal.toList = some (withoutProof, proof) ∧
    let salted := pbkdf2 (Bytes.ofString password) salt iterations
    let message := bare ++ ',' :: serverFirst.toList ++ ',' :: withoutProof
    let signature := hmac (hmac salted (Bytes.ofString "Server Key")) (utf8 message)
    signature.length = 32 ∧
      (parts serverFinal.toList).findSome? (valueOf 'v') = some (Base64.encode signature)

end Scram

/-- The two strings that the client says in an exchange. -/
structure ClientStrings where
  /-- The one that names the user. -/
  first : String
  /-- The one that proves who it is. -/
  final : String

/-- The messages in which the strings of an exchange travel. -/
def ClientStrings.messages (s : ClientStrings) : List ClientMessage :=
  [.saslInitial Scram.mechanism s.first, .saslResponse s.final]

/-- Whether a message demands a proof. -/
def ServerMessage.isChallenge : ServerMessage → Bool
  | .authentication (.sasl _) => true
  | _ => false

/-- Every demand for a proof among the messages is followed by the rest of an exchange that the
server has signed. The exchanges of the client belong to the demands in their order. -/
def Proven (config : Config) (messages : List ServerMessage) (exchanges : List ClientStrings) :
    Prop :=
  ∀ before methods after, messages = before ++ .authentication (.sasl methods) :: after →
    ∃ serverFirst serverFinal rest password strings,
      after = .authentication (.saslContinue serverFirst) ::
        .authentication (.saslFinal serverFinal) :: .authentication .ok :: rest ∧
      config.password = some password ∧
      exchanges[before.countP ServerMessage.isChallenge]? = some strings ∧
      Scram.Signed password strings.first serverFirst strings.final serverFinal

namespace Proven

variable {config : Config} {messages : List ServerMessage} {exchanges : List ClientStrings}

theorem nil : Proven config [] exchanges := by
  intro before methods after h
  exact absurd h (by simp)

theorem cons {m : ServerMessage} (hm : m.isChallenge = false)
    (h : Proven config messages exchanges) : Proven config (m :: messages) exchanges := by
  intro before methods after heq
  cases before with
  | nil =>
    obtain ⟨rfl, -⟩ := List.cons.inj heq
    exact absurd hm (by simp [ServerMessage.isChallenge])
  | cons m' before =>
    obtain ⟨rfl, htail⟩ := List.cons.inj heq
    rw [List.countP_cons_of_neg (by simp [hm])]
    exact h before methods after htail

theorem exchange {methods : List Bytes} {serverFirst serverFinal password : String}
    {strings : ClientStrings} (hp : config.password = some password)
    (hs : Scram.Signed password strings.first serverFirst strings.final serverFinal)
    (h : Proven config messages exchanges) :
    Proven config (.authentication (.sasl methods) :: .authentication (.saslContinue serverFirst) ::
      .authentication (.saslFinal serverFinal) :: .authentication .ok :: messages)
      (strings :: exchanges) := by
  have hrest : Proven config (.authentication (.saslContinue serverFirst) ::
      .authentication (.saslFinal serverFinal) :: .authentication .ok :: messages) exchanges :=
    .cons rfl (.cons rfl (.cons rfl h))
  intro before methods' after heq
  cases before with
  | nil =>
    obtain ⟨-, rfl⟩ := List.cons.inj heq
    exact ⟨serverFirst, serverFinal, messages, password, strings, rfl, hp, rfl, hs⟩
  | cons m before =>
    obtain ⟨rfl, htail⟩ := List.cons.inj heq
    rw [List.countP_cons_of_pos rfl, List.getElem?_cons_succ]
    exact hrest before methods' after htail

end Proven

/-- An exchange with which the client has gone along is signed by the server. -/
theorem Point.Accepted.signed {config : Config} {nonces : NonceSource} {methods : List Bytes}
    {serverFirst serverFinal : String} {said : List ClientMessage} {phase : Phase}
    (h : Accepted config nonces (.verified methods serverFirst serverFinal) said phase) :
    ∃ password strings, config.password = some password ∧ said = ClientStrings.messages strings ∧
      Scram.Signed password strings.first serverFirst strings.final serverFinal := by
  obtain ⟨password, secrets, clientFinal, hp, ha, hv, rfl, -⟩ := h.of_verified
  obtain ⟨challenge, hread, hsalted, hmessage, hreply⟩ := Scram.Conversation.answer_ok ha
  obtain ⟨-, hsalt, hiterations, -⟩ := Scram.readServerFirst_ok hread
  obtain ⟨-, hsignature⟩ := Scram.verify_ok_iff.mp hv
  refine ⟨password, ⟨String.ofList (Scram.clientFirst config.user nonces.nonce), clientFinal⟩, hp,
    rfl, Scram.clientFirstBare config.user nonces.nonce, challenge.salt, challenge.iterations,
    Scram.clientFinalWithoutProof challenge.nonce,
    Base64.encode (Scram.clientProof secrets.saltedPassword secrets.authMessage),
    ?_, hsalt, hiterations, ?_, length_hmac _ _, ?_⟩
  · rw [String.toList_ofList]
    rfl
  · rw [hreply]
    exact Scram.Conversation.splitAtLast_clientFinal _ _
  · rw [hsignature, hsalted, hmessage]
    rfl

/-- In turns with which the client has gone along every demand for a proof is met. -/
theorem Turns.proven {config : Config} {nonces nonces' : NonceSource} {turns : List Turn}
    {said : List ClientMessage} (ht : Turns config nonces turns said nonces')
    {rest : List ServerMessage} (hrest : Proven config rest []) :
    ∃ exchanges : List ClientStrings, said = exchanges.flatMap ClientStrings.messages ∧
      Proven config (turns.flatMap Turn.messages ++ rest) exchanges := by
  induction ht with
  | nil => exact ⟨[], rfl, hrest⟩
  | keyData key _ ih =>
    obtain ⟨exchanges, rfl, h⟩ := ih
    exact ⟨exchanges, rfl, .cons rfl h⟩
  | authOk _ ih =>
    obtain ⟨exchanges, rfl, h⟩ := ih
    exact ⟨exchanges, rfl, .cons rfl h⟩
  | exchange hp _ ih =>
    obtain ⟨exchanges, rfl, h⟩ := ih
    obtain ⟨password, strings, hpassword, rfl, hsigned⟩ := hp.signed
    exact ⟨strings :: exchanges, rfl, .exchange hpassword hsigned h⟩

namespace Connection

/-- A new connection gets set up only if every demand for a proof that the client has received was
followed by the rest of an exchange that the server has signed. This holds over any transport and
for any bytes. All that was written are the client's proposal and its strings of the exchanges, so
the strings that are signed are those that were on the wire. -/
theorem startup_authenticates {config : Config} {nonces : NonceSource} {t : Transport}
    {c' : Connection} (hok : startup config nonces { transport := t } = .ok () c') :
    ∃ (frames : List Frame) (messages : List ServerMessage) (exchanges : List ClientStrings),
      t.undelivered = frames.flatMap Frame.toBytes ++ c'.unread ∧
      frames.map ServerMessage.decode = messages.map .ok ∧
      c'.transport.written = t.written ++ ClientMessage.stream
        (Handshake.proposal config :: exchanges.flatMap ClientStrings.messages) ∧
      Proven config messages exchanges := by
  obtain ⟨⟨proposal, turns, point⟩, said, h, transaction, hp, hpoint, hcarries, hsent, -⟩ :=
    startup_ok (c := { transport := t }) rfl rfl hok
  obtain rfl : point = .outside := hpoint
  obtain ⟨ht, hend⟩ := hp
  cases hend
  obtain ⟨frames, hdecode, hunread⟩ := hcarries.exists_frames
  have hlast : Proven config [.readyForCommand transaction] [] := .cons rfl .nil
  obtain ⟨exchanges, rfl, hproven⟩ := ht.proven hlast
  rw [List.append_nil] at hsent
  refine ⟨frames, _, exchanges, hunread, hdecode, hsent.bytes_eq, ?_⟩
  have hall : Proven config ((proposal.map (ServerMessage.handshake .current)).toList ++
      (turns.flatMap Turn.messages ++ [.readyForCommand transaction])) exchanges := by
    cases proposal with
    | none => exact hproven
    | some extensions => exact .cons rfl hproven
  have hmessages : Progress.messages ⟨proposal, turns, .outside⟩ ++ [.readyForCommand transaction] =
      (proposal.map (ServerMessage.handshake .current)).toList ++
        (turns.flatMap Turn.messages ++ [.readyForCommand transaction]) := by
    simp [Progress.messages, Point.messages]
  rw [hmessages]
  exact hall

end Connection

/-! ## A peer that knows the password -/

/-- The frames of a server that demands a proof and gives its own one. -/
def pencilFrames (nonces : NonceSource) : List Frame :=
  (pencilRequests nonces).map Authentication.frame ++
    [⟨ServerMessage.readyForCommandTag, [0, 0, 0x49]⟩]

theorem decode_pencilFrames (nonces : NonceSource) :
    (pencilFrames nonces).map ServerMessage.decode = ((pencilRequests nonces).map
      ServerMessage.authentication ++ [ServerMessage.readyForCommand .notInTransaction]).map .ok ∧
    ∀ f ∈ pencilFrames nonces, f.toBytes.length < sizeBound :=
  @decode_around_pencilRequests nonces [] [⟨ServerMessage.readyForCommandTag, [0, 0, 0x49]⟩]
    [] [.readyForCommand .notInTransaction] rfl (by decide) (by decide)

/-- A peer that sends these frames. -/
def pencilPeer (nonces : NonceSource) : Peer where
  deliveries := [.bytes ((pencilFrames nonces).flatMap Frame.toBytes)]

/-- A connection to such a peer gets set up, and its challenge was met by proof from both sides. -/
theorem startup_authenticates_pencil :
    ∃ c', Connection.startup pencilConfig ⟨fun _ => 0, 0⟩
        { transport := .toPeer (pencilPeer ⟨fun _ => 0, 0⟩) } = .ok () c' ∧
      ∃ (frames : List Frame) (messages : List ServerMessage) (exchanges : List ClientStrings),
        (Transport.toPeer (pencilPeer ⟨fun _ => 0, 0⟩)).undelivered =
          frames.flatMap Frame.toBytes ++ c'.unread ∧
        frames.map ServerMessage.decode = messages.map .ok ∧
        Proven pencilConfig messages exchanges := by
  let nonces : NonceSource := ⟨fun _ => 0, 0⟩
  obtain ⟨hdecode, hlen⟩ := decode_pencilFrames nonces
  have hpeer : (pencilPeer nonces).Speaks (pencilFrames nonces) := Peer.speaks_at_once _
  obtain ⟨said, phase, hserver⟩ := @Point.accepted_of_server pencilConfig "pencil" nonces rfl
    [Bytes.ofString Scram.mechanism] ['x'] (by decide) (by decide) [0x41, 0x25] 4096
    (by decide) (by decide)
  obtain ⟨c', hok, -⟩ := Connection.startup_of_script
    (s := ⟨none, [.exchange _ _ _], .notInTransaction⟩) hpeer hdecode hlen (by decide) (by decide)
    List.prefix_rfl (.exchange hserver (.nil _))
  obtain ⟨frames, messages, exchanges, hunread, hframes, -, hproven⟩ :=
    Connection.startup_authenticates hok
  exact ⟨c', hok, frames, messages, exchanges, hunread, hframes, hproven⟩

end EdgeClient
