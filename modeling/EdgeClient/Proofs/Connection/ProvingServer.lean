import EdgeClient.Proofs.Connection.Replies
import EdgeClient.Proofs.Scram.Agreement

/-!
# A server that knows the password

A client gets through an exchange with any server that knows the password: it goes along with both
of the server's strings, whatever the salt, the number of iterations and the server's part of the
nonce are. So there are handshakes with a demand for a proof in them that go well, and points inside
of one that are reached. The rest of the module is what such servers send when the password is
`pencil`.
-/

namespace EdgeClient

namespace Scram.Server

/-- The last string of a server that knows the password. -/
def final (user password : String) (nonce suffix : Chars) (salt : Bytes) (iterations : Nat) :
    Chars :=
  "v=".toList ++ Base64.encode (serverSignature (pbkdf2 (Bytes.ofString password) salt iterations)
    (authMessage (clientFirstBare user nonce) (first (nonce ++ suffix) salt iterations)
      (clientFinalWithoutProof (nonce ++ suffix))))

theorem length_final (user password : String) (nonce suffix : Chars) (salt : Bytes)
    (iterations : Nat) :
    (Bytes.ofString (String.ofList (final user password nonce suffix salt iterations))).length ≤
      184 := by
  have hle := length_utf8_le (final user password nonce suffix salt iterations)
  have hv : "v=".toList.length = 2 := rfl
  rw [final, List.length_append, Base64.length_encode, serverSignature, length_hmac, hv] at hle
  exact hle

end Scram.Server

theorem NonceSource.length_nonce (nonces : NonceSource) : nonces.nonce.length = nonceLength := by
  simp [nonce]

theorem NonceSource.comma_notMem_nonce (nonces : NonceSource) : ',' ∉ nonces.nonce := by
  have halphabet : ∀ c ∈ alphabet, c.isAlphanum := List.all_eq_true.mp rfl
  have hlen : 0 < alphabet.length := by decide
  intro h
  obtain ⟨k, -, hk⟩ := List.mem_map.mp h
  have hmod := Nat.mod_lt (nonces.draw (nonces.used + k)) hlen
  rw [charOf, List.getElem?_eq_getElem hmod, Option.getD_some] at hk
  have hcomma := halphabet _ (List.getElem_mem hmod)
  rw [hk] at hcomma
  exact absurd hcomma (by decide)

/-- The client goes along with a server that demands a proof. -/
theorem Point.accepted_challenged {config : Config} {password : String} (nonces : NonceSource)
    (hp : config.password = some password) (methods : List Bytes) :
    Point.Accepted config nonces (.challenged methods)
      [.saslInitial Scram.mechanism (String.ofList (Scram.clientFirst config.user nonces.nonce))]
      (.serverFirst (Accepted.conversation config nonces password .awaitingServerFirst)) :=
  .challenged hp (Scram.Conversation.step_initial rfl "")

/-- The client goes along with a server that knows the password. -/
theorem Point.accepted_of_server {config : Config} {password : String} (nonces : NonceSource)
    (hp : config.password = some password) (methods : List Bytes) {suffix : Scram.Chars}
    (hs : suffix ≠ []) (hc : ',' ∉ suffix) (salt : Bytes) {iterations : Nat}
    (h0 : 0 < iterations) (h1 : iterations ≤ maxIterations) :
    ∃ said phase, Point.Accepted config nonces (.verified methods
      (String.ofList (Scram.Server.first (nonces.nonce ++ suffix) salt iterations))
      (String.ofList (Scram.Server.final config.user password nonces.nonce suffix salt iterations)))
      said phase := by
  have hread := Scram.readServerFirst_serverFirst nonces.comma_notMem_nonce hs hc salt h0 h1
  let key := pbkdf2 (Bytes.ofString password) salt iterations
  let message := Scram.authMessage (Scram.clientFirstBare config.user nonces.nonce)
    (Scram.Server.first (nonces.nonce ++ suffix) salt iterations)
    (Scram.clientFinalWithoutProof (nonces.nonce ++ suffix))
  have hanswer : (Accepted.conversation config nonces password .awaitingServerFirst).answer
      (Scram.Server.first (nonces.nonce ++ suffix) salt iterations) =
      .ok (⟨key, message⟩, Scram.clientFinalWithoutProof (nonces.nonce ++ suffix) ++
        ",p=".toList ++ Base64.encode (Scram.clientProof key message)) := by
    have hread' : Scram.readServerFirst (Accepted.conversation config nonces password
        .awaitingServerFirst).clientNonce
        (Scram.Server.first (nonces.nonce ++ suffix) salt iterations) = _ := hread
    unfold Scram.Conversation.answer
    rw [hread']
    rfl
  have hfinal : (Accepted.conversation config nonces password .awaitingServerFirst).step
      (String.ofList (Scram.Server.first (nonces.nonce ++ suffix) salt iterations)) =
      .ok _ (Accepted.conversation config nonces password (.awaitingServerFinal ⟨key, message⟩)) :=
    Scram.Conversation.step_of_answer rfl (by rw [String.toList_ofList]; exact hanswer)
  have hdone : (Accepted.conversation config nonces password
      (.awaitingServerFinal ⟨key, message⟩)).step
      (String.ofList (Scram.Server.final config.user password nonces.nonce suffix salt iterations)) =
      .ok "" (Accepted.conversation config nonces password (.done ⟨key, message⟩)) :=
    Scram.Conversation.step_of_verify rfl
      (by rw [String.toList_ofList]; exact Scram.verify_serverFinal ⟨key, message⟩)
  exact ⟨_, _, .verified (.answered (accepted_challenged nonces hp methods) hfinal) hdone⟩

/-! ## What it sends -/

/-- Settings with a password. -/
def pencilConfig : Config := { Config.forUser "user" with password := some "pencil" }

/-- What a server that knows the password asks for and tells. -/
def pencilRequests (nonces : NonceSource) : List Authentication :=
  [.sasl [Bytes.ofString Scram.mechanism],
    .saslContinue (String.ofList (Scram.Server.first (nonces.nonce ++ ['x']) [0x41, 0x25] 4096)),
    .saslFinal (String.ofList
      (Scram.Server.final "user" "pencil" nonces.nonce ['x'] [0x41, 0x25] 4096)),
    .ok]

theorem fits_of_mem_pencilRequests {nonces : NonceSource} {request : Authentication}
    (h : request ∈ pencilRequests nonces) : request.payload.length < 200 ∧ request.IsProper := by
  have hfirst := Scram.length_utf8_le
    (Scram.Server.first (nonces.nonce ++ ['x']) [0x41, 0x25] 4096)
  have hfinal := Scram.Server.length_final "user" "pencil" nonces.nonce ['x'] [0x41, 0x25] 4096
  simp only [pencilRequests, List.mem_cons, List.not_mem_nil, or_false] at h
  rcases h with rfl | rfl | rfl | rfl
  · exact ⟨by decide, trivial⟩
  · refine ⟨?_, trivial⟩
    rw [Authentication.payload, List.length_append, BigEndian.length_encode,
      Bytes.length_textField, lengthFieldSize]
    have hlen : (Scram.Server.first (nonces.nonce ++ ['x']) [0x41, 0x25] 4096).length = 41 := by
      rw [Scram.Server.first]
      simp only [List.length_append, nonces.length_nonce]
      decide
    rw [hlen, Scram.utf8] at hfirst
    omega
  · refine ⟨?_, trivial⟩
    rw [Authentication.payload, List.length_append, BigEndian.length_encode,
      Bytes.length_textField, lengthFieldSize]
    omega
  · exact ⟨by decide, trivial⟩

/-- The requests are heard for what they are, whatever is sent before and after them. -/
theorem decode_around_pencilRequests (nonces : NonceSource) {before after : List Frame}
    {ms ms' : List ServerMessage} (hbefore : before.map ServerMessage.decode = ms.map .ok)
    (hafter : after.map ServerMessage.decode = ms'.map .ok)
    (hlen : ∀ f ∈ before ++ after, f.toBytes.length < sizeBound) :
    (before ++ (pencilRequests nonces).map Authentication.frame ++ after).map ServerMessage.decode =
      (ms ++ (pencilRequests nonces).map ServerMessage.authentication ++ ms').map .ok ∧
    ∀ f ∈ before ++ (pencilRequests nonces).map Authentication.frame ++ after,
      f.toBytes.length < sizeBound := by
  refine ⟨?_, fun f hf => ?_⟩
  · have hrequests : ((pencilRequests nonces).map Authentication.frame).map ServerMessage.decode =
        ((pencilRequests nonces).map ServerMessage.authentication).map .ok := by
      rw [List.map_map, List.map_map]
      refine List.map_congr_left fun request hr => ?_
      obtain ⟨hshort, hproper⟩ := fits_of_mem_pencilRequests hr
      exact ServerMessage.decode_frame (Nat.lt_trans hshort (by decide)) hproper
    simp only [List.map_append, hbefore, hrequests, hafter]
  · rcases List.mem_append.mp hf with hf | hf
    · rcases List.mem_append.mp hf with hf | hf
      · exact hlen f (List.mem_append_left _ hf)
      · obtain ⟨request, hr, rfl⟩ := List.mem_map.mp hf
        have hshort := (fits_of_mem_pencilRequests hr).1
        rw [Frame.length_toBytes]
        simp only [Authentication.frame, headerSize, lengthFieldSize, sizeBound]
        omega
    · exact hlen f (List.mem_append_right _ hf)

/-- What a server sends before it demands a proof: its version, which is the client's, and a key. -/
def introduction : List Frame :=
  [⟨ServerMessage.handshakeTag, [0, 0, 0, 8, 0, 0]⟩,
    ⟨ServerMessage.keyDataTag, List.replicate 32 1⟩]

end EdgeClient
