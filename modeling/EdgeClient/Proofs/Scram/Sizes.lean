import EdgeClient.Proofs.Scram.Steps

/-!
# How long the client's strings get

The strings of an exchange travel in fields with a length, so their UTF-8 forms must not get too
long. The first string grows with the user name, whose characters may each be escaped as three. The
last one repeats the nonce, which is a part of what the server sent.
-/

namespace EdgeClient

namespace Scram

theorem utf8_append (cs ds : Chars) : utf8 (cs ++ ds) = utf8 cs ++ utf8 ds := by
  simp [utf8, Bytes.ofString]

theorem length_utf8_append (cs ds : Chars) :
    (utf8 (cs ++ ds)).length = (utf8 cs).length + (utf8 ds).length := by
  rw [utf8_append, List.length_append]

theorem length_utf8_cons (c : Char) (cs : Chars) :
    (utf8 (c :: cs)).length = c.utf8Size + (utf8 cs).length := by
  have hone : (utf8 [c]).length = c.utf8Size := by
    simp [utf8, Bytes.ofString, List.utf8Encode_singleton]
  rw [← hone, ← length_utf8_append, List.singleton_append]

/-- No character has more than four bytes. -/
theorem length_utf8_le (cs : Chars) : (utf8 cs).length ≤ 4 * cs.length := by
  induction cs with
  | nil => exact Nat.le_refl 0
  | cons c cs ih =>
    have := c.utf8Size_le_four
    rw [length_utf8_cons, List.length_cons]
    omega

theorem length_utf8_of_sublist {cs ds : Chars} (h : cs.Sublist ds) :
    (utf8 cs).length ≤ (utf8 ds).length := by
  induction h with
  | slnil => exact Nat.le_refl _
  | cons c _ ih =>
    rw [length_utf8_cons]
    omega
  | cons_cons c _ ih =>
    rw [length_utf8_cons, length_utf8_cons]
    omega

theorem length_utf8_escape (cs : Chars) : (utf8 (escape cs)).length ≤ 3 * (utf8 cs).length := by
  have hthree : ∀ (c d e f : Char) (rest : Chars), c.utf8Size = 1 → d.utf8Size = 1 →
      e.utf8Size = 1 → f.utf8Size = 1 → (utf8 (escape rest)).length ≤ 3 * (utf8 rest).length →
      (utf8 (c :: d :: e :: escape rest)).length ≤ 3 * (utf8 (f :: rest)).length := by
    intro c d e f rest hc hd he hf ih
    simp only [length_utf8_cons, hc, hd, he, hf]
    omega
  fun_induction escape cs with
  | case1 => exact Nat.le_refl _
  | case2 rest ih => exact hthree _ _ _ _ rest rfl rfl rfl rfl ih
  | case3 rest ih => exact hthree _ _ _ _ rest rfl rfl rfl rfl ih
  | case4 c rest _ _ ih =>
    rw [length_utf8_cons, length_utf8_cons]
    omega

theorem length_clientFirst (user : String) (clientNonce : Chars) :
    (utf8 (clientFirst user clientNonce)).length ≤
      8 + 3 * (Bytes.ofString user).length + 4 * clientNonce.length := by
  have huser : utf8 user.toList = Bytes.ofString user := by rw [utf8, String.ofList_toList]
  have hescape := length_utf8_escape user.toList
  have hnonce := length_utf8_le clientNonce
  rw [huser] at hescape
  have hn : (utf8 "n=".toList).length = 2 := by decide
  have hr : (utf8 ",r=".toList).length = 3 := by decide
  have hheader : (utf8 bindingHeader).length = 3 := by decide
  simp only [clientFirst, clientFirstBare, length_utf8_append, hn, hr, hheader]
  omega

/-- The nonce that a server sends is a part of its first string. -/
theorem sublist_of_lastValue {letter : Char} {text value : Chars}
    (h : lastValue letter text = some value) : value.Sublist text :=
  ((List.sublist_cons_self _ _).trans (List.sublist_cons_self _ _)).trans
    (sublist_of_mem_parts (entry_mem_parts h))

theorem length_clientFinalWithoutProof (nonce : Chars) :
    (utf8 (clientFinalWithoutProof nonce)).length = 9 + (utf8 nonce).length := by
  have hc : (utf8 "c=biws,r=".toList).length = 9 := by decide
  rw [← hc, ← length_utf8_append]
  rfl

theorem length_clientProof (saltedPassword : Bytes) (authMessage : Chars) :
    (clientProof saltedPassword authMessage).length = 32 := by
  show (Bytes.xor (hmac _ _) (hmac _ _)).length = 32
  rw [Bytes.xor, List.length_zipWith, length_hmac, length_hmac]
  rfl

theorem length_clientFinal {c : Conversation} {serverFirst reply : Chars} {secrets : Secrets}
    (h : c.answer serverFirst = .ok (secrets, reply)) :
    (utf8 reply).length ≤ (utf8 serverFirst).length + 188 := by
  obtain ⟨challenge, hread, -, -, rfl⟩ := Conversation.answer_ok h
  have hnonce := length_utf8_of_sublist (sublist_of_lastValue (readServerFirst_ok hread).1)
  have hproof := length_utf8_le (Base64.encode (clientProof secrets.saltedPassword secrets.authMessage))
  rw [Base64.length_encode, length_clientProof] at hproof
  have hp : (utf8 ",p=".toList).length = 3 := by decide
  have hfinal := length_clientFinalWithoutProof challenge.nonce
  rw [length_utf8_append, length_utf8_append _ ",p=".toList, hp]
  omega

end Scram

end EdgeClient
