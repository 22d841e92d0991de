import EdgeClient.Proofs.Scram.Names

/-!
# Client and server agree

The other side of an exchange is a server by RFC 5802: it knows the salt, the iteration count and
two keys, and sees nothing but the strings on the wire. `Server` has what such a server reads off
them. The main statement is that a client that starts afresh gets through the exchange with it:
both sides sign the same text, the server recognises the proof, and the client the signature.

The proof goes by the texts first. All that is split at commas was joined from parts without any:
the escaped user name, both halves of the nonce, base 64 and decimal digits.
-/

namespace EdgeClient.Scram

/-! ## Exclusive or -/

theorem xor_xor_cancel {as bs : Bytes} (h : as.length = bs.length) :
    Bytes.xor (Bytes.xor as bs) bs = as := by
  induction as generalizing bs with
  | nil => rfl
  | cons a as ih =>
    cases bs with
    | nil => exact absurd h (by simp)
    | cons b bs =>
      have hl : as.length = bs.length := by simpa using h
      have hb : a ^^^ b ^^^ b = a := by rw [UInt8.xor_assoc, UInt8.xor_self, UInt8.xor_zero]
      show (a ^^^ b ^^^ b) :: Bytes.xor (Bytes.xor as bs) bs = a :: as
      rw [hb, ih hl]

/-! ## The server's side -/

namespace Server

/-- The first string of a server with the given salt and iteration count. -/
def first (nonce : Chars) (salt : Bytes) (iterations : Nat) : Chars :=
  "r=".toList ++ nonce ++ ",s=".toList ++ Base64.encode salt ++ ",i=".toList ++ decimal iterations

/-- The user and the nonce that a server reads in the client's first string without its header. -/
def readFirst (bare : Chars) : Option (Chars × Chars) :=
  match parts bare with
  | [name, nonce] => do return (unescape (← valueOf 'n' name), ← valueOf 'r' nonce)
  | _ => none

/-- The last string of a client as a server takes it apart. -/
structure Final where
  /-- All that stands before the proof. -/
  withoutProof : Chars
  /-- The combined nonce. -/
  nonce : Chars
  /-- The proof. -/
  proof : Bytes

/-- Takes the last string of a client apart. -/
def readFinal (final : Chars) : Option Final := do
  let (withoutProof, proof) ← splitAtLast ",p=".toList final
  return ⟨withoutProof, ← lastValue 'r' withoutProof, ← Base64.decode proof⟩

end Server

/-- What it means that a client with the given nonce and a server that adds `suffix` to it get
through an exchange with each other. -/
def Agree (user password : String) (nonce suffix : Chars) (salt : Bytes) (iterations : Nat) :
    Prop :=
  let serverFirst := Server.first (nonce ++ suffix) salt iterations
  let salted := pbkdf2 (Bytes.ofString password) salt iterations
  let storedKey := Sha256.digest (hmac salted (Bytes.ofString "Client Key"))
  let serverKey := hmac salted (Bytes.ofString "Server Key")
  ∃ (clientFirst clientFinal : String) (bare : Chars) (final : Server.Final)
    (c₁ c₂ c₃ : Conversation),
    -- the client names the user, and the server reads the name
    Conversation.step "" { user, password, clientNonce := nonce } = .ok clientFirst c₁ ∧
    clientFirst.toList = "n,,".toList ++ bare ∧
    Server.readFirst bare = some (user.toList, nonce) ∧
    -- the client answers the server's challenge, and the server reads the nonce
    c₁.step (String.ofList serverFirst) = .ok clientFinal c₂ ∧
    Server.readFinal clientFinal.toList = some final ∧
    final.nonce = nonce ++ suffix ∧
    -- the text that the server signs is the one that the client has signed
    let message := authMessage bare serverFirst final.withoutProof
    c₂.secrets? = some ⟨salted, message⟩ ∧
    -- the server recognises the client's key behind the proof
    Sha256.digest (final.proof.xor (hmac storedKey (utf8 message))) = storedKey ∧
    -- the client recognises the server's signature
    c₂.step (String.ofList ("v=".toList ++ Base64.encode (hmac serverKey (utf8 message)))) =
      .ok "" c₃ ∧
    c₃.isDone = true

/-! ## The texts -/

/-- The server reads the user's name and the nonce in the client's first string. -/
theorem readFirst_clientFirstBare (user : String) {nonce : Chars} (hn : ',' ∉ nonce) :
    Server.readFirst (clientFirstBare user nonce) = some (user.toList, nonce) := by
  unfold Server.readFirst
  rw [parts_clientFirstBare user hn]
  simp [valueOf_entry, unescape_escape]

theorem parts_serverFirst {nonce : Chars} (hn : ',' ∉ nonce) (salt : Bytes) (iterations : Nat) :
    parts (Server.first nonce salt iterations) =
      [entry 'r' nonce, entry 's' (Base64.encode salt), entry 'i' (decimal iterations)] := by
  have hjoin : Server.first nonce salt iterations = entry 'r' nonce ++ ',' ::
      (entry 's' (Base64.encode salt) ++ ',' :: entry 'i' (decimal iterations)) := by
    simp [Server.first, entry]
  have h1 : ',' ∉ entry 'r' nonce := by simp [entry, hn]
  have h2 : ',' ∉ entry 's' (Base64.encode salt) := by
    simp [entry, Base64.comma_notMem_encode]
  have h3 : ',' ∉ entry 'i' (decimal iterations) := by simp [entry, comma_notMem_decimal]
  rw [hjoin, parts_cons h1, parts_cons h2, parts_of_notMem h3]

theorem readServerFirst_serverFirst {nonce suffix : Chars} (hn : ',' ∉ nonce)
    (hs : suffix ≠ []) (hc : ',' ∉ suffix) (salt : Bytes) {iterations : Nat}
    (h0 : 0 < iterations) (h1 : iterations ≤ maxIterations) :
    readServerFirst nonce (Server.first (nonce ++ suffix) salt iterations) =
      .ok ⟨nonce ++ suffix, salt, iterations⟩ := by
  have hcombined : ',' ∉ nonce ++ suffix := by simp [hn, hc]
  have hread : ServerFirst.readParts (parts (Server.first (nonce ++ suffix) salt iterations)) {} =
      .ok ⟨some (nonce ++ suffix), some salt, some iterations⟩ := by
    have hsmall : iterations < 2 ^ 32 := by
      have : maxIterations < 2 ^ 32 := by decide
      omega
    have hs_r : valueOf 'r' (entry 's' (Base64.encode salt)) = none :=
      valueOf_entry_of_ne (by decide) _
    have hi_r : valueOf 'r' (entry 'i' (decimal iterations)) = none :=
      valueOf_entry_of_ne (by decide) _
    have hi_s : valueOf 's' (entry 'i' (decimal iterations)) = none :=
      valueOf_entry_of_ne (by decide) _
    rw [parts_serverFirst hcombined]
    simp [ServerFirst.readParts, ServerFirst.readPart, valueOf_entry, hs_r, hi_r, hi_s,
      Base64.decode_encode, number?_decimal hsmall]
  have hpos : iterations ≠ 0 := by omega
  have hle : ¬ maxIterations < iterations := by omega
  unfold readServerFirst
  rw [hread]
  simp [ServerFirst.check, hpos, hle, hs]

theorem readFinal_clientFinal {nonce : Chars} (hn : ',' ∉ nonce) (proof : Bytes) :
    Server.readFinal (clientFinalWithoutProof nonce ++ ",p=".toList ++ Base64.encode proof) =
      some ⟨clientFinalWithoutProof nonce, nonce, proof⟩ := by
  have hjoin : clientFinalWithoutProof nonce = "c=biws".toList ++ ',' :: entry 'r' nonce := rfl
  have hnonce : ',' ∉ entry 'r' nonce := by simp [entry, hn]
  have hlast : lastValue 'r' (clientFinalWithoutProof nonce) = some nonce := by
    have hc : valueOf 'r' "c=biws".toList = none := by decide
    unfold lastValue
    rw [hjoin, parts_cons (by decide), parts_of_notMem hnonce, List.filterMap_cons_none hc,
      List.filterMap_cons_some (valueOf_entry 'r' nonce)]
    rfl
  unfold Server.readFinal
  rw [Conversation.splitAtLast_clientFinal]
  simp [hlast, Base64.decode_encode]

/-- The client recognises a server's signature that stands alone in the last string. -/
theorem verify_serverFinal (secrets : Secrets) :
    Conversation.verify secrets ("v=".toList ++
      Base64.encode (serverSignature secrets.saltedPassword secrets.authMessage)) = .ok () := by
  rw [verify_ok_iff]
  generalize serverSignature secrets.saltedPassword secrets.authMessage = signature
  have hv : "v=".toList ++ Base64.encode signature = entry 'v' (Base64.encode signature) := rfl
  have hsingle : ',' ∉ entry 'v' (Base64.encode signature) := by
    simp [entry, Base64.comma_notMem_encode]
  rw [hv, parts_of_notMem hsingle, List.findSome?_singleton, valueOf_entry]
  exact ⟨valueOf_entry_of_ne (by decide) _, rfl⟩

/-! ## The exchange -/

/-- A client and a server by RFC 5802 that know the same password get through an exchange with each
other, whatever the name of the user. -/
theorem exchange_agrees (user password : String) {nonce suffix : Chars} (salt : Bytes)
    {iterations : Nat} (hn : ∀ c ∈ nonce, c.isAlphanum) (hs : suffix ≠ []) (hc : ',' ∉ suffix)
    (h0 : 1 ≤ iterations) (h1 : iterations ≤ 2 ^ 20) :
    Agree user password nonce suffix salt iterations := by
  have hcomma : ',' ∉ nonce := fun h => absurd (hn ',' h) (by decide)
  have hcombined : ',' ∉ nonce ++ suffix := by simp [hcomma, hc]
  unfold Agree
  intro serverFirst salted storedKey serverKey
  let bare := clientFirstBare user nonce
  let message := authMessage bare serverFirst (clientFinalWithoutProof (nonce ++ suffix))
  let proof := clientProof salted message
  let reply := clientFinalWithoutProof (nonce ++ suffix) ++ ",p=".toList ++ Base64.encode proof
  let c₁ : Conversation := ⟨user, password, nonce, .awaitingServerFirst⟩
  let c₂ : Conversation := ⟨user, password, nonce, .awaitingServerFinal ⟨salted, message⟩⟩
  let c₃ : Conversation := ⟨user, password, nonce, .done ⟨salted, message⟩⟩
  have hread := readServerFirst_serverFirst hcomma hs hc salt h0 h1
  have hanswer : c₁.answer serverFirst = .ok (⟨salted, message⟩, reply) := by
    unfold Conversation.answer
    rw [hread]
    rfl
  refine ⟨String.ofList (clientFirst user nonce), String.ofList reply, bare,
    ⟨clientFinalWithoutProof (nonce ++ suffix), nonce ++ suffix, proof⟩, c₁, c₂, c₃,
    rfl, ?_, readFirst_clientFirstBare user hcomma, ?_, ?_, rfl, rfl, ?_, ?_, rfl⟩
  · rw [String.toList_ofList]
    rfl
  · refine Conversation.step_of_answer rfl ?_
    rw [String.toList_ofList, hanswer]
  · rw [String.toList_ofList]
    exact readFinal_clientFinal hcombined proof
  · -- the mask of the proof is the signature that the server computes
    have hproof : proof =
        Bytes.xor (hmac salted (Bytes.ofString "Client Key")) (hmac storedKey (utf8 message)) := rfl
    have hlen : (hmac salted (Bytes.ofString "Client Key")).length =
        (hmac storedKey (utf8 message)).length := by rw [length_hmac, length_hmac]
    rw [hproof, xor_xor_cancel hlen]
  · have hverify : Conversation.verify ⟨salted, message⟩ ("v=".toList ++
        Base64.encode (serverSignature salted message)) = .ok () := verify_serverFinal _
    refine Conversation.step_of_verify rfl ?_
    rw [String.toList_ofList]
    exact hverify

/-- An exchange for a user whose name has both characters in it that are escaped. -/
theorem exchange_agrees_escaped :
    Agree "a,b=c" "pencil" "fyko7d2lbbFgONRv9qkxdawL".toList "3rfcNHYJY1ZVvWVs7j".toList
      [0x41, 0x25, 0xc2] 4096 :=
  exchange_agrees "a,b=c" "pencil" [0x41, 0x25, 0xc2] (List.all_eq_true.mp rfl) (by decide)
    (by decide) (by decide) (by decide)

end EdgeClient.Scram
