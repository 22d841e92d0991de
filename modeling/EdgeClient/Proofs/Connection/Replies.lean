import EdgeClient.Proofs.Connection.Progress
import EdgeClient.Proofs.Message.ServerFrames
import EdgeClient.Proofs.Scram.Sizes

/-!
# What the client says fits into frames

A frame has room for less than four gibibytes. Names and server strings that are shorter than one
gibibyte stay below that: escaping a name makes it three times as long at most, and the last client
string is hardly longer than the server string that it answers.
-/

namespace EdgeClient

/-- The bound on names and on what the server sends. -/
def sizeBound : Nat := 2 ^ 30

namespace ClientMessage

theorem encodable_saslInitial {data : String}
    (h : (Bytes.ofString data).length ≤ 3 * sizeBound + 1024) :
    Encodable (.saslInitial Scram.mechanism data) := by
  have hname : (Bytes.ofString Scram.mechanism).length = 13 := by decide
  refine ⟨trivial, ?_⟩
  simp only [Frame.Fits, frame, body, List.length_append, Bytes.length_textField, hname, lengthFieldSize,
    sizeBound] at *
  omega

theorem encodable_saslResponse {data : String}
    (h : (Bytes.ofString data).length ≤ 3 * sizeBound + 1024) :
    Encodable (.saslResponse data) := by
  refine ⟨trivial, ?_⟩
  simp only [Frame.Fits, frame, body, Bytes.length_textField, lengthFieldSize, sizeBound] at *
  omega

end ClientMessage

theorem Handshake.encodable_proposal {config : Config}
    (hu : (Bytes.ofString config.user).length < sizeBound)
    (hd : (Bytes.ofString config.database).length < sizeBound) :
    (Handshake.proposal config).Encodable := by
  have hdatabase : (Bytes.ofString "database").length = 8 := by decide
  have huser : (Bytes.ofString "user").length = 4 := by decide
  have hlen : (ClientMessage.body (Handshake.proposal config)).length =
      36 + (Bytes.ofString config.database).length + (Bytes.ofString config.user).length := by
    simp only [proposal, ClientMessage.body, Config.handshakeParams, ClientMessage.paramsBody,
      List.flatMap_cons, List.flatMap_nil, List.length_append, Bytes.length_textField,
      BigEndian.length_encode, hdatabase, huser, lengthFieldSize, List.length_nil]
    omega
  refine ⟨show 2 < 2 ^ 16 by decide, ?_⟩
  unfold Frame.Fits ClientMessage.frame
  rw [hlen]
  simp only [lengthFieldSize, sizeBound] at *
  omega

section

variable {config : Config} {nonces nonces' : NonceSource} {said : List ClientMessage}

/-- No server string of an exchange among the messages exceeds the bound. -/
def ShortStrings (messages : List ServerMessage) : Prop :=
  ∀ data, .authentication (.saslContinue data) ∈ messages →
    (Bytes.ofString data).length < sizeBound

theorem encodable_clientFirst (hu : (Bytes.ofString config.user).length < sizeBound) :
    ClientMessage.Encodable (.saslInitial Scram.mechanism
      (String.ofList (Scram.clientFirst config.user nonces.nonce))) := by
  have hlen := Scram.length_clientFirst config.user nonces.nonce
  have hnonce : nonces.nonce.length = 24 := by
    rw [NonceSource.nonce, List.length_map, List.length_range]
    rfl
  refine ClientMessage.encodable_saslInitial ?_
  unfold Scram.utf8 at hlen
  omega

/-- What the client says in an exchange fits into frames. -/
theorem Point.Accepted.encodable {point : Point} {phase : Phase}
    (hp : point.Accepted config nonces said phase)
    (hu : (Bytes.ofString config.user).length < sizeBound) (hs : ShortStrings point.messages) :
    ∀ m ∈ said, m.Encodable := by
  have hanswer : ∀ {methods serverFirst said phase},
      Accepted config nonces (.answered methods serverFirst) said phase →
      (Bytes.ofString serverFirst).length < sizeBound → ∀ m ∈ said, m.Encodable := by
    intro methods serverFirst said phase h hshort m hm
    obtain ⟨password, secrets, clientFinal, -, ha, rfl, -⟩ := h.of_answered
    simp only [List.mem_cons, List.not_mem_nil, or_false] at hm
    rcases hm with rfl | rfl
    · exact encodable_clientFirst hu
    · have hlen := Scram.length_clientFinal ha
      simp only [Scram.utf8, String.ofList_toList] at hlen
      exact ClientMessage.encodable_saslResponse (by omega)
  cases point with
  | outside =>
    cases hp
    simp
  | challenged methods =>
    obtain ⟨_, -, rfl, -⟩ := hp.of_challenged
    intro m hm
    obtain rfl := List.mem_singleton.mp hm
    exact encodable_clientFirst hu
  | answered methods serverFirst => exact hanswer hp (hs _ (by simp [messages]))
  | verified methods serverFirst serverFinal =>
    cases hp with
    | verified h => exact hanswer h (hs _ (by simp [messages]))

theorem Turns.encodable {turns : List Turn} (ht : Turns config nonces turns said nonces')
    (hu : (Bytes.ofString config.user).length < sizeBound)
    (hs : ShortStrings (turns.flatMap Turn.messages)) : ∀ m ∈ said, m.Encodable := by
  induction ht with
  | nil => simp
  | keyData _ _ ih | authOk _ ih =>
    exact ih fun data hd => hs data (by
      rw [List.flatMap_cons]
      exact List.mem_append_right _ hd)
  | @exchange _ _ turns _ _ methods serverFirst serverFinal _ hp _ ih =>
    intro m hm
    rcases List.mem_append.mp hm with hm | hm
    · refine hp.encodable hu (fun data hd => hs data ?_) m hm
      rw [List.flatMap_cons]
      have hmem : _ ∈ (Point.verified methods serverFirst serverFinal).messages ++
          [.authentication .ok] := List.mem_append_left _ hd
      exact List.mem_append_left _ hmem
    · refine ih (fun data hd => hs data ?_) m hm
      rw [List.flatMap_cons]
      exact List.mem_append_right _ hd

theorem Progress.Accepted.encodable {p : Progress} {h : Handshake}
    (hp : p.Accepted config nonces said h)
    (hu : (Bytes.ofString config.user).length < sizeBound) (hs : ShortStrings p.messages) :
    ∀ m ∈ said, m.Encodable := by
  obtain ⟨ht, hpoint⟩ := hp
  intro m hm
  rcases List.mem_append.mp hm with hm | hm
  · refine ht.encodable hu (fun data hd => hs data ?_) m hm
    exact List.mem_append_left _ (List.mem_append_right _ hd)
  · exact hpoint.encodable hu (fun data hd => hs data (List.mem_append_right _ hd)) m hm

/-- Frames below the bound hold no longer server strings. -/
theorem shortStrings_of_frames {frames : List Frame} {messages : List ServerMessage}
    (hd : frames.map ServerMessage.decode = messages.map .ok)
    (hlen : ∀ f ∈ frames, f.toBytes.length < sizeBound) : ShortStrings messages := by
  intro data hmem
  have hok : Except.ok (.authentication (.saslContinue data)) ∈
      frames.map ServerMessage.decode := by
    rw [hd]
    exact List.mem_map_of_mem hmem
  obtain ⟨f, hf, hdecode⟩ := List.mem_map.mp hok
  have hle := (ServerMessage.decode_authentication hdecode).1 data rfl
  have hshort := hlen f hf
  rw [Frame.length_toBytes] at hshort
  omega

/-- What the client says to a server whose frames are below the bound fits into frames. -/
theorem Progress.Accepted.encodable_of_frames {p : Progress} {h : Handshake} {frames : List Frame}
    {rest : List ServerMessage} (hp : p.Accepted config nonces said h)
    (hd : frames.map ServerMessage.decode = (p.messages ++ rest).map .ok)
    (hlen : ∀ f ∈ frames, f.toBytes.length < sizeBound)
    (huser : (Bytes.ofString config.user).length < sizeBound)
    (hdatabase : (Bytes.ofString config.database).length < sizeBound) :
    ∀ m ∈ Handshake.proposal config :: said, m.Encodable := by
  have hshort : ShortStrings p.messages := fun data hmem =>
    shortStrings_of_frames hd hlen data (List.mem_append_left _ hmem)
  intro m hm
  rcases List.mem_cons.mp hm with rfl | hm
  · exact Handshake.encodable_proposal huser hdatabase
  · exact hp.encodable huser hshort m hm

end

end EdgeClient
