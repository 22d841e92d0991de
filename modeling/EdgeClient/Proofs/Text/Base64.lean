import EdgeClient.Text.Base64

/-!
# Base 64 is read back as it was written

Reading a written text gives the bytes back, and a text that can be read is the one that writing
gives: each byte string has exactly one base 64 form. The digits and the padding are no commas, so
a written text never splits a list of attributes.
-/

namespace EdgeClient.Base64

/-! ## Digits -/

theorem value?_digit : ∀ v < 64, value? (digit v) = some v := by decide

theorem digit_ne : ∀ v < 64, digit v ≠ '=' ∧ digit v ≠ ',' := by decide

theorem digit_of_value? {c : Char} {v : Nat} (h : value? c = some v) : v < 64 ∧ digit v = c := by
  have hc : ∀ n : Nat, n = c.toNat → Char.ofNat n = c := fun n hn => by rw [hn, Char.ofNat_toNat]
  unfold value? at h
  dsimp only at h
  split at h
  · rename_i hr
    obtain rfl := Option.some.inj h
    have hd : digit (c.toNat - 65) = Char.ofNat (65 + (c.toNat - 65)) := by
      rw [digit, if_pos (by omega)]
    exact ⟨by omega, hd.trans (hc _ (by omega))⟩
  · split at h
    · rename_i hr
      obtain rfl := Option.some.inj h
      have hd : digit (c.toNat - 71) = Char.ofNat (71 + (c.toNat - 71)) := by
        rw [digit, if_neg (by omega), if_pos (by omega)]
      exact ⟨by omega, hd.trans (hc _ (by omega))⟩
    · split at h
      · rename_i hr
        obtain rfl := Option.some.inj h
        have hd : digit (c.toNat + 4) = Char.ofNat (c.toNat + 4 - 4) := by
          rw [digit, if_neg (by omega), if_neg (by omega), if_pos (by omega)]
        exact ⟨by omega, hd.trans (hc _ (by omega))⟩
      · split at h
        · rename_i hp
          obtain rfl := Option.some.inj h
          exact ⟨by omega, hp ▸ rfl⟩
        · split at h
          · rename_i hs
            obtain rfl := Option.some.inj h
            exact ⟨by omega, hs ▸ rfl⟩
          · exact absurd h (by simp)

theorem value?_pad : value? '=' = none := by decide

/-! ## Groups of four digits -/

theorem ofNat_eq {n : Nat} {b : UInt8} (h : n = b.toNat) : UInt8.ofNat n = b := by
  rw [h, UInt8.ofNat_toNat]

theorem decodeGroup_digits (a b c : UInt8) :
    let n := a.toNat * 65536 + b.toNat * 256 + c.toNat
    decodeGroup (digit (n / 262144)) (digit (n / 4096 % 64)) (digit (n / 64 % 64)) (digit (n % 64)) =
      some [a, b, c] := by
  intro n
  have ha := a.toNat_lt
  have hb := b.toNat_lt
  have hc := c.toNat_lt
  have h1 : n / 262144 * 4 + n / 4096 % 64 / 16 = a.toNat := by omega
  have h2 : n / 4096 % 64 % 16 * 16 + n / 64 % 64 / 4 = b.toNat := by omega
  have h3 : n / 64 % 64 % 4 * 64 + n % 64 = c.toNat := by omega
  unfold decodeGroup
  rw [value?_digit _ (by omega), value?_digit _ (by omega), value?_digit _ (by omega),
    value?_digit _ (by omega)]
  simp only [Option.bind_eq_bind, Option.bind_some]
  rw [ofNat_eq h1, ofNat_eq h2, ofNat_eq h3]

/-- A last group without padding is read like any other. -/
theorem decodeLast_eq_decodeGroup {w x y z : Char} (hy : y ≠ '=') (hz : z ≠ '=') :
    decodeLast w x y z = decodeGroup w x y z := by
  unfold decodeLast decodeGroup
  simp [hy, hz]

/-! ## Reading what was written -/

theorem decode_encode (bs : Bytes) : decode (encode bs) = some bs := by
  fun_induction encode bs with
  | case1 => rfl
  | case2 a n =>
    have ha := a.toNat_lt
    have h1 : n / 64 * 4 + n % 64 / 16 = a.toNat := by omega
    have h2 : n % 64 % 16 = 0 := by omega
    rw [decode, decodeLast, value?_digit _ (by omega), value?_digit _ (by omega)]
    simp only [Option.bind_eq_bind, Option.bind_some, and_self, if_true, h2]
    rw [ofNat_eq h1]
  | case3 a b n =>
    have ha := a.toNat_lt
    have hb := b.toNat_lt
    have h1 : n / 4096 * 4 + n / 64 % 64 / 16 = a.toNat := by omega
    have h2 : n / 64 % 64 % 16 * 16 + n % 64 / 4 = b.toNat := by omega
    have h3 : n % 64 % 4 = 0 := by omega
    have hp := (digit_ne (n % 64) (by omega)).1
    rw [decode, decodeLast, value?_digit _ (by omega), value?_digit _ (by omega),
      value?_digit _ (by omega)]
    simp only [Option.bind_eq_bind, Option.bind_some, hp, false_and, if_false, if_true, h3]
    rw [ofNat_eq h1, ofNat_eq h2]
  | case4 a b c rest n ih =>
    have hg : decodeGroup (digit (n / 262144)) (digit (n / 4096 % 64)) (digit (n / 64 % 64))
        (digit (n % 64)) = some [a, b, c] := decodeGroup_digits a b c
    cases hr : encode rest with
    | nil =>
      rw [hr] at ih
      obtain rfl : [] = rest := Option.some.inj ih
      have hy := (digit_ne (n / 64 % 64) (by omega)).1
      have hz := (digit_ne (n % 64) (by omega)).1
      rw [decode, decodeLast_eq_decodeGroup hy hz, hg]
    | cons t ts =>
      rw [decode]
      · rw [← hr, hg, ih]
        rfl
      · simp

/-! ## One text for each byte string -/

/-- A group that can be read is the written form of its three bytes. -/
theorem of_decodeGroup {w x y z : Char} {g : Bytes} (h : decodeGroup w x y z = some g)
    (rest : Bytes) : encode (g ++ rest) = w :: x :: y :: z :: encode rest := by
  unfold decodeGroup at h
  simp only [Option.bind_eq_bind, Option.bind_eq_some_iff] at h
  obtain ⟨a, ha, b, hb, c, hc, d, hd, hg⟩ := h
  obtain rfl := Option.some.inj hg
  obtain ⟨ha, rfl⟩ := digit_of_value? ha
  obtain ⟨hb, rfl⟩ := digit_of_value? hb
  obtain ⟨hc, rfl⟩ := digit_of_value? hc
  obtain ⟨hd, rfl⟩ := digit_of_value? hd
  have h1 : (UInt8.ofNat (a * 4 + b / 16)).toNat = a * 4 + b / 16 :=
    UInt8.toNat_ofNat_of_lt' (show _ < 256 by omega)
  have h2 : (UInt8.ofNat (b % 16 * 16 + c / 4)).toNat = b % 16 * 16 + c / 4 :=
    UInt8.toNat_ofNat_of_lt' (show _ < 256 by omega)
  have h3 : (UInt8.ofNat (c % 4 * 64 + d)).toNat = c % 4 * 64 + d :=
    UInt8.toNat_ofNat_of_lt' (show _ < 256 by omega)
  simp only [List.cons_append, List.nil_append, encode, h1, h2, h3]
  generalize hn : (a * 4 + b / 16) * 65536 + (b % 16 * 16 + c / 4) * 256 + (c % 4 * 64 + d) = n
  rw [show n / 262144 = a by omega, show n / 4096 % 64 = b by omega,
    show n / 64 % 64 = c by omega, show n % 64 = d by omega]

/-- A last group that can be read is the written form of its bytes. -/
theorem of_decodeLast {w x y z : Char} {bs : Bytes} (h : decodeLast w x y z = some bs) :
    encode bs = [w, x, y, z] := by
  by_cases hz : z = '='
  · subst hz
    unfold decodeLast at h
    simp only [Option.bind_eq_bind, Option.bind_eq_some_iff, and_true, if_true] at h
    obtain ⟨a, ha, b, hb, h⟩ := h
    obtain ⟨ha, rfl⟩ := digit_of_value? ha
    obtain ⟨hb, rfl⟩ := digit_of_value? hb
    have h1 : (UInt8.ofNat (a * 4 + b / 16)).toNat = a * 4 + b / 16 :=
      UInt8.toNat_ofNat_of_lt' (show _ < 256 by omega)
    split at h
    · rename_i hy
      subst hy
      split at h
      · rename_i hb0
        obtain rfl := Option.some.inj h
        simp only [encode, h1]
        rw [show (a * 4 + b / 16) * 16 / 64 = a by omega,
          show (a * 4 + b / 16) * 16 % 64 = b by omega]
      · exact absurd h (by simp)
    · simp only [Option.bind_eq_some_iff] at h
      obtain ⟨c, hc, h⟩ := h
      obtain ⟨hc, rfl⟩ := digit_of_value? hc
      split at h
      · rename_i hc0
        have h2 : (UInt8.ofNat (b % 16 * 16 + c / 4)).toNat = b % 16 * 16 + c / 4 :=
          UInt8.toNat_ofNat_of_lt' (show _ < 256 by omega)
        obtain rfl := Option.some.inj h
        simp only [encode, h1, h2]
        rw [show ((a * 4 + b / 16) * 256 + (b % 16 * 16 + c / 4)) * 4 / 4096 = a by omega,
          show ((a * 4 + b / 16) * 256 + (b % 16 * 16 + c / 4)) * 4 / 64 % 64 = b by omega,
          show ((a * 4 + b / 16) * 256 + (b % 16 * 16 + c / 4)) * 4 % 64 = c by omega]
      · exact absurd h (by simp)
  · by_cases hy : y = '='
    · -- padding in the third place only is refused: it is no digit
      exfalso
      subst hy
      unfold decodeLast at h
      simp [hz, value?_pad] at h
    · rw [decodeLast_eq_decodeGroup hy hz] at h
      have := of_decodeGroup h []
      rwa [List.append_nil, encode] at this

/-- A text that can be read is the one that writing gives. -/
theorem encode_of_decode {text : List Char} {bs : Bytes} (h : decode text = some bs) :
    encode bs = text := by
  fun_induction decode text generalizing bs with
  | case1 =>
    obtain rfl := Option.some.inj h
    rfl
  | case2 w x y z => exact of_decodeLast h
  | case3 w x y z rest hne ih =>
    simp only [Option.bind_eq_bind, Option.bind_eq_some_iff] at h
    obtain ⟨group, hg, tail, ht, h⟩ := h
    obtain rfl := Option.some.inj h
    rw [of_decodeGroup hg, ih ht]
  | case4 => exact absurd h (by simp)

/-- A text is the base 64 form of some bytes exactly if it can be read. -/
theorem decode_eq_some_iff {text : List Char} {bs : Bytes} :
    decode text = some bs ↔ text = encode bs :=
  ⟨fun h => (encode_of_decode h).symm, fun h => h ▸ decode_encode bs⟩

theorem decode_eq_none_iff {text : List Char} :
    decode text = none ↔ ∀ bs, text ≠ encode bs := by
  rw [Option.eq_none_iff_forall_ne_some]
  exact forall_congr' fun bs => not_congr decode_eq_some_iff

/-! ## No commas -/

theorem length_encode (bs : Bytes) : (encode bs).length = 4 * ((bs.length + 2) / 3) := by
  fun_induction encode bs with
  | case1 => rfl
  | case2 | case3 => simp
  | case4 a b c rest n ih =>
    simp only [List.length_cons, ih]
    omega

theorem comma_notMem_encode (bs : Bytes) : ',' ∉ encode bs := by
  have hd : ∀ v < 64, ',' ≠ digit v := fun v hv => (digit_ne v hv).2.symm
  fun_induction encode bs with
  | case1 => simp
  | case2 a n =>
    have ha := a.toNat_lt
    simp [hd (n / 64) (by omega), hd (n % 64) (by omega)]
  | case3 a b n =>
    have ha := a.toNat_lt
    have hb := b.toNat_lt
    simp [hd (n / 4096) (by omega), hd (n / 64 % 64) (by omega), hd (n % 64) (by omega)]
  | case4 a b c rest n ih =>
    have ha := a.toNat_lt
    have hb := b.toNat_lt
    have hc := c.toNat_lt
    simp [hd (n / 262144) (by omega), hd (n / 4096 % 64) (by omega),
      hd (n / 64 % 64) (by omega), hd (n % 64) (by omega), ih]

end EdgeClient.Base64
