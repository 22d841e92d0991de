import EdgeClient.Proofs.Json.FloatingPoint
import EdgeClient.Proofs.Json.Decimals

/-!
# Small whole numbers in floating point

Between the number that a literal writes down and what it is worth there are three roundings, of the
significand, of the power of ten and of the result, and the digits that have been dropped. For whole
numbers of 16 bits this comes to less than four units in the fifty-third place. The other way round,
a significand that is within a unit of such a number is rounded to it at once, and from then on
nothing is lost.
-/

namespace EdgeClient

namespace Dyadic

variable {x y t : Dyadic} {k : ℕ}

/-! ## Powers of ten -/

theorem rounds_powerOfTen (k : ℕ) : Rounds (10 ^ k) (powerOfTen k) := by
  have hrounds := rounds_ofNat (10 ^ k)
  rwa [Nat.cast_pow, Nat.cast_ofNat] at hrounds

theorem one_le_ten_pow (k : ℕ) : (1 : ℚ) ≤ 10 ^ k := one_le_pow₀ (by norm_num)

theorem powerOfTen_error (h : powerOfTen k = some t) : |t.value - 10 ^ k| * 2 ^ 53 ≤ 10 ^ k := by
  have hone := one_le_ten_pow k
  exact (rounds_powerOfTen k).relative h (by linarith)

theorem half_of_error {a b : ℚ} (h : |a - b| * 2 ^ 53 ≤ b) (hb : 0 ≤ b) : b / 2 ≤ a := by
  have hself := neg_abs_le (a - b)
  have hscaled := mul_le_mul_of_nonneg_right hself (by positivity : (0 : ℚ) ≤ 2 ^ 53)
  linarith

theorem two_le_powerOfTen (h : powerOfTen k = some t) (hk : 1 ≤ k) : 2 ≤ t.value := by
  have hhalf := half_of_error (powerOfTen_error h) (by positivity)
  have hten : (10 : ℚ) ^ 1 ≤ 10 ^ k := pow_le_pow_right₀ (by norm_num) hk
  linarith

theorem exists_powerOfTen (hk : k ≤ 19) : ∃ t, powerOfTen k = some t ∧ t.value = 10 ^ k := by
  have hsplit : 10 ^ k = 5 ^ k * 2 ^ k := by rw [← Nat.mul_pow]
  have hfive : 5 ^ k < 2 ^ 53 := (Nat.pow_le_pow_right (by decide) hk).trans_lt (by norm_num)
  have hlt : 10 ^ k < 2 ^ 100 := (Nat.pow_le_pow_right (by decide) hk).trans_lt (by norm_num)
  obtain ⟨t, ht, hvalue⟩ := (rounds_ofNat (10 ^ k)).exactly (by positivity) hfive hsplit hlt
  exact ⟨t, ht, by rw [hvalue, Nat.cast_pow, Nat.cast_ofNat]⟩

/-! ## Scaling down -/

theorem div_lt_one (h : x.div y = some t) (hlt : 2 * x.value < y.value) : t.value < 1 := by
  have hx := x.value_nonneg
  have hy : 0 < y.value := by linarith
  refine (rounds_div x hy).lt_one h ?_
  rw [div_lt_iff₀ hy]
  linarith

/-- What is less than one stays so. -/
theorem scaleDown_lt_one (hk : 1 ≤ k) (h : x.scaleDown k = some y) (hx : x.value < 1) :
    y.value < 1 := by
  induction k using Nat.strongRecOn generalizing x with
  | ind k ih =>
    rw [scaleDown] at h
    by_cases hle : k ≤ maxPower
    · rw [if_pos hle] at h
      obtain ⟨t, ht, hdiv⟩ := Option.bind_eq_some_iff.mp h
      have htwo := two_le_powerOfTen ht hk
      exact div_lt_one hdiv (by linarith)
    · rw [if_neg hle] at h
      by_cases hzero : x.mantissa = 0
      · rw [if_pos hzero] at h
        obtain rfl := Option.some.inj h
        exact hx
      · rw [if_neg hzero] at h
        obtain ⟨t, ht, h⟩ := Option.bind_eq_some_iff.mp h
        obtain ⟨x', hdiv, h⟩ := Option.bind_eq_some_iff.mp h
        have htwo := two_le_powerOfTen ht (by decide)
        rw [maxPower] at *
        exact ih (k - 308) (by omega) (by omega) h (div_lt_one hdiv (by linarith))

/-- What has not become less than one has been divided once. -/
theorem exists_of_scaleDown (h : x.scaleDown k = some y) (hx : x.value < 2 ^ 65)
    (hy : 1 ≤ y.value) : ∃ t, powerOfTen k = some t ∧ x.div t = some y := by
  rw [scaleDown] at h
  by_cases hle : k ≤ maxPower
  · rw [if_pos hle] at h
    exact Option.bind_eq_some_iff.mp h
  exfalso
  rw [if_neg hle] at h
  by_cases hzero : x.mantissa = 0
  · rw [if_pos hzero] at h
    obtain rfl := Option.some.inj h
    rw [value_eq_zero hzero] at hy
    linarith
  · rw [if_neg hzero] at h
    obtain ⟨t, ht, h⟩ := Option.bind_eq_some_iff.mp h
    obtain ⟨x', hdiv, h⟩ := Option.bind_eq_some_iff.mp h
    have hhalf := half_of_error (powerOfTen_error ht) (by positivity)
    have hten : (10 : ℚ) ^ 22 ≤ 10 ^ maxPower := pow_le_pow_right₀ (by norm_num) (by decide)
    have hx' : x'.value < 1 := div_lt_one hdiv (by linarith)
    rw [maxPower] at *
    have hlt := scaleDown_lt_one (by omega) h hx'
    linarith

/-- Three roundings, and a numerator that was a little off to begin with. -/
theorem quotient_error {a a' b b' q z : ℚ} (hb : 0 < b) (hb' : 0 < b')
    (ha : |a' - a| * 2 ^ 53 ≤ a) (hbb : |b' - b| * 2 ^ 53 ≤ b)
    (hz : |z - a' / b'| * 2 ^ 53 ≤ a' / b') (hq : |q * b - a| * 2 ^ 56 ≤ a) (hpos : 0 ≤ z) :
    |q - z| * 2 ^ 51 ≤ z := by
  obtain ⟨w, hw⟩ : ∃ w, w = a' / b' := ⟨_, rfl⟩
  have ha' : a' = w * b' := by rw [hw, div_mul_cancel₀ _ hb'.ne']
  rw [← hw] at hz
  rw [ha'] at ha
  have hwn : 0 ≤ w := (mul_nonneg (abs_nonneg _) (by positivity)).trans hz
  rw [← le_div_iff₀ (by positivity), abs_le] at ha hbb hz hq ⊢
  have hupper : q * b * (2 ^ 56 * (2 ^ 53 - 1)) ≤ w * b * ((2 ^ 53 + 1) * (2 ^ 56 + 1)) := by
    have hwb : w * b' * 2 ^ 53 ≤ w * (b * (2 ^ 53 + 1)) := by
      rw [mul_assoc]
      exact mul_le_mul_of_nonneg_left (by linarith) hwn
    linarith
  have hlower : w * b * ((2 ^ 53 - 1) * (2 ^ 56 - 1)) ≤ q * b * (2 ^ 56 * (2 ^ 53 + 1)) := by
    have hwb : w * (b * (2 ^ 53 - 1)) ≤ w * b' * 2 ^ 53 := by
      rw [mul_assoc]
      exact mul_le_mul_of_nonneg_left (by linarith) hwn
    linarith
  have hupper' : q * (2 ^ 56 * (2 ^ 53 - 1)) ≤ w * ((2 ^ 53 + 1) * (2 ^ 56 + 1)) := by
    refine le_of_mul_le_mul_right ?_ hb
    linarith
  have hlower' : w * ((2 ^ 53 - 1) * (2 ^ 56 - 1)) ≤ q * (2 ^ 56 * (2 ^ 53 + 1)) := by
    refine le_of_mul_le_mul_right ?_ hb
    linarith
  constructor
  · linarith
  · linarith

/-! ## Scaling small numbers -/

/-- Nothing is lost while the number stays below 53 bits. -/
theorem exists_scaleUp {n : ℕ} (hn : n ≠ 0) (hlt : n * 10 ^ k < 2 ^ 53) :
    ∃ x y, ofNat n = some x ∧ x.scaleUp k = some y ∧ y.value = (n * 10 ^ k : ℕ) := by
  have hten : 10 ^ k < 2 ^ 53 :=
    (Nat.le_mul_of_pos_left _ (Nat.pos_of_ne_zero hn)).trans_lt hlt
  have hk : k ≤ 19 := by
    by_contra hk
    have hmono : 10 ^ 20 ≤ 10 ^ k := Nat.pow_le_pow_right (by decide) (by omega)
    omega
  have hnlt : n < 2 ^ 53 := (Nat.le_mul_of_pos_right n (by positivity)).trans_lt hlt
  obtain ⟨x, hx, hxvalue⟩ :=
    (rounds_ofNat n).exactly (k := 0) hn hnlt (Nat.mul_one n).symm (by omega)
  obtain ⟨t, ht, htvalue⟩ := exists_powerOfTen hk
  have hproduct : x.value * t.value = (n * 10 ^ k : ℕ) := by
    rw [hxvalue, htvalue]
    push_cast
    rfl
  have hrounds := rounds_mul x t
  rw [hproduct] at hrounds
  obtain ⟨y, hy, hyvalue⟩ := hrounds.exactly (k := 0) (Nat.mul_ne_zero hn (by positivity)) hlt
    (Nat.mul_one _).symm (by omega)
  refine ⟨x, y, hx, ?_, hyvalue⟩
  have hle : k ≤ maxPower := hk.trans (by decide)
  rw [scaleUp, if_pos hle, ht]
  exact hy

/-- A small number that comes of scaling up comes of small numbers. -/
theorem eq_of_scaleUp {n p : ℕ} (hx : ofNat n = some x) (h : x.scaleUp k = some y)
    (hy : y.value = p) (hp : 1 ≤ p) (hlt : p < 2 ^ 16) : n * 10 ^ k = p := by
  have hpq : (1 : ℚ) ≤ p := by exact_mod_cast hp
  have hltq : (p : ℚ) < 2 ^ 16 := by exact_mod_cast hlt
  obtain ⟨t, ht, hmul⟩ : ∃ t, powerOfTen k = some t ∧ x.mul t = some y := by
    rw [scaleUp] at h
    by_cases hle : k ≤ maxPower
    · rw [if_pos hle] at h
      exact Option.bind_eq_some_iff.mp h
    · rw [if_neg hle] at h
      obtain ⟨hzero, hsame⟩ := Option.ite_none_right_eq_some.mp h
      obtain rfl := Option.some.inj hsame
      rw [value_eq_zero hzero] at hy
      linarith
  have hrounds := rounds_mul x t
  have hhalf := hrounds.half_le hmul (hy ▸ hpq)
  have hn : n ≠ 0 := by
    rintro rfl
    rw [ofNat, nearest, if_pos rfl] at hx
    obtain rfl := Option.some.inj hx
    rw [value_eq_zero rfl, zero_mul] at hhalf
    linarith
  -- neither factor is less than one, so neither is large
  have hsmall : n * 10 ^ k < 2 ^ 20 := by
    have hone : (1 : ℚ) ≤ n := by exact_mod_cast Nat.pos_of_ne_zero hn
    have hxhalf := half_of_error ((rounds_ofNat n).relative hx (by linarith)) (by linarith)
    have hthalf := half_of_error (powerOfTen_error ht) (by positivity)
    have hyhalf := half_of_error (hrounds.relative hmul hhalf) (by linarith)
    have hproduct : (n : ℚ) / 2 * (10 ^ k / 2) ≤ x.value * t.value :=
      mul_le_mul hxhalf hthalf (by positivity) x.value_nonneg
    have hbound : (n : ℚ) * 10 ^ k < 2 ^ 20 := by linarith
    exact_mod_cast hbound
  obtain ⟨x', y', hx', hy', hvalue⟩ := exists_scaleUp hn (hsmall.trans (by norm_num))
  obtain rfl : x = x' := Option.some.inj (hx.symm.trans hx')
  obtain rfl : y = y' := Option.some.inj (h.symm.trans hy')
  exact_mod_cast hvalue.symm.trans hy

theorem value_lt_of_ofNat {n : ℕ} (h : ofNat n = some x) (hn : n < 2 ^ 64) :
    x.value < 2 ^ 65 := by
  have hnq : (n : ℚ) < 2 ^ 64 := by exact_mod_cast hn
  have hself := le_abs_self (x.value - n)
  rcases (rounds_ofNat n).error x h with herror | herror
  · linarith
  · have htiny : (2 : ℚ) ^ (-1075 : ℤ) ≤ 2 ^ (0 : ℤ) := two_zpow_le (by norm_num)
    rw [zpow_zero] at htiny
    linarith

/-- A number that is close enough to the multiple of a small one is rounded to it, and then divided
without loss. -/
theorem exists_scaleDown {n p : ℕ} (hp : 1 ≤ p) (hk : k ≤ 19) (hfive : p * 5 ^ k < 2 ^ 53)
    (hlt : n < 2 ^ 100) (hclose : |(n : ℚ) - p * 10 ^ k| * 2 ^ 54 < n) :
    ∃ x y, ofNat n = some x ∧ x.scaleDown k = some y ∧ y.value = p := by
  have hmultiple : ((p * 5 ^ k : ℕ) : ℚ) * 2 ^ (k : ℤ) = p * 10 ^ k := by
    rw [zpow_natCast]
    push_cast
    rw [mul_assoc, ← mul_pow]
    norm_num
  obtain ⟨x, hx, hxvalue⟩ := (rounds_ofNat n).exact (p * 5 ^ k) k hfive (by omega)
    (cast_lt_two_zpow hlt) (by rwa [hmultiple])
  obtain ⟨t, ht, htvalue⟩ := exists_powerOfTen hk
  have hten : (0 : ℚ) < 10 ^ k := by positivity
  have hquotient : x.value / t.value = p := by
    rw [hxvalue, hmultiple, htvalue, mul_div_cancel_right₀ _ hten.ne']
  have hrounds := rounds_div x (y := t) (by rwa [htvalue])
  rw [hquotient] at hrounds
  have hpsmall : p < 2 ^ 53 := (Nat.le_mul_of_pos_right p (by positivity)).trans_lt hfive
  obtain ⟨y, hy, hyvalue⟩ :=
    hrounds.exactly (k := 0) (by omega) hpsmall (Nat.mul_one p).symm (by omega)
  refine ⟨x, y, hx, ?_, hyvalue⟩
  have hle : k ≤ maxPower := hk.trans (by decide)
  rw [scaleDown, if_pos hle, ht]
  exact hy

end Dyadic

namespace NumberLiteral.Significand

variable {s : Significand} {q : ℚ} {x : Dyadic} {k p : ℕ}

/-! ## Scaling a significand -/

theorem number_of_nonneg (hk : s.power = k) : s.number = (s.value * 10 ^ k : ℕ) := by
  rw [number, hk, zpow_natCast]
  push_cast
  rfl

theorem Approximates.of_nonpos (h : s.Approximates q) (hk : s.power = -k) :
    |q * 10 ^ k - s.value| = 0 ∨ (2 ^ 60 ≤ s.value ∧ |q * 10 ^ k - s.value| ≤ 10) := by
  have hten : (0 : ℚ) < 10 ^ k := by positivity
  have hunit : (10 : ℚ) ^ s.power * 10 ^ k = 1 := by
    rw [hk, zpow_neg, zpow_natCast, inv_mul_cancel₀ hten.ne']
  have hnumber : s.number * 10 ^ k = s.value := by rw [number, mul_assoc, hunit, mul_one]
  rw [← hnumber, ← sub_mul, abs_mul, abs_of_pos hten]
  rcases h with rfl | ⟨hlarge, herror⟩
  · left
    rw [sub_self, abs_zero, zero_mul]
  · right
    have hscaled := mul_le_mul_of_nonneg_right herror hten.le
    rw [mul_assoc, hunit, mul_one] at hscaled
    exact ⟨hlarge, hscaled⟩

/-- What is worth a small whole number is not far from it. -/
theorem error_of_scale (hs : s.Approximates q) (h64 : s.value < 2 ^ 64)
    (h : (Dyadic.ofNat s.value).bind (·.scale s.power) = some x) (hx : x.value = p) (hp : 1 ≤ p)
    (hlt : p < 2 ^ 16) : |q - p| * 2 ^ 51 ≤ p := by
  obtain ⟨y, hy, h⟩ := Option.bind_eq_some_iff.mp h
  have hpq : (1 : ℚ) ≤ p := by exact_mod_cast hp
  cases hpower : s.power with
  | ofNat k =>
    -- scaled up, it has to be the number itself
    rw [hpower] at h
    have hexact : s.value * 10 ^ k = p := Dyadic.eq_of_scaleUp hy h hx hp hlt
    have hnumber : s.number = p := by rw [number_of_nonneg hpower, hexact]
    rcases hs with rfl | ⟨hlarge, -⟩
    · rw [hnumber, sub_self, abs_zero, zero_mul]
      linarith
    · have hle : s.value ≤ s.value * 10 ^ k := Nat.le_mul_of_pos_right _ (by positivity)
      omega
  | negSucc k =>
    rw [hpower] at h
    obtain ⟨t, ht, hdiv⟩ :=
      Dyadic.exists_of_scaleDown h (Dyadic.value_lt_of_ofNat hy h64) (hx ▸ hpq)
    have htwo := Dyadic.two_le_powerOfTen ht (by omega)
    have hrounds := Dyadic.rounds_div y (y := t) (by linarith)
    have hhalf := hrounds.half_le hdiv (hx ▸ hpq)
    have hyone : 1 ≤ y.value := by
      rw [le_div_iff₀ (by linarith)] at hhalf
      linarith
    have hn := (Dyadic.rounds_ofNat s.value).half_le hy hyone
    have hcut : |q * 10 ^ (k + 1) - s.value| * 2 ^ 56 ≤ s.value := by
      rcases hs.of_nonpos (k := k + 1) hpower with hzero | ⟨hlarge, herror⟩
      · rw [hzero, zero_mul]
        linarith
      · have hlargeq : (2 : ℚ) ^ 60 ≤ s.value := by exact_mod_cast hlarge
        linarith
    rw [← hx]
    exact Dyadic.quotient_error (by positivity) (by linarith)
      ((Dyadic.rounds_ofNat s.value).relative hy hn) (Dyadic.powerOfTen_error ht)
      (hrounds.relative hdiv hhalf) hcut x.value_nonneg

theorem value_eq_of_close (hs : s.Approximates q) (hk : s.power = k) (hlt : p < 2 ^ 16)
    (hclose : |q - p| * 2 ^ 55 ≤ p) : s.value * 10 ^ k = p := by
  have hltq : (p : ℚ) < 2 ^ 16 := by exact_mod_cast hlt
  have hnumber := number_of_nonneg hk
  rcases hs with rfl | ⟨hlarge, herror⟩
  · rw [hnumber] at hclose
    exact Dyadic.eq_of_abs_sub_lt_one (by linarith)
  · -- a significand with digits missing is too large
    exfalso
    have hten := Dyadic.one_le_ten_pow k
    have hlargeq : (2 : ℚ) ^ 60 ≤ s.value := by exact_mod_cast hlarge
    have hself := le_abs_self (q - p)
    have hbelow := neg_abs_le (q - s.number)
    rw [hk, zpow_natCast] at herror
    rw [hnumber, Nat.cast_mul, Nat.cast_pow, Nat.cast_ofNat] at hbelow herror
    have hproduct : (2 ^ 60 - 10) * 1 ≤ ((s.value : ℚ) - 10) * 10 ^ k :=
      mul_le_mul (by linarith) hten (by norm_num) (by linarith)
    linarith

theorem value_close_of_close (hs : s.Approximates q) (hk : s.power = -k) (hp : 1 ≤ p)
    (hclose : |q - p| * 2 ^ 55 ≤ p) : |(s.value : ℚ) - p * 10 ^ k| * 2 ^ 54 < s.value := by
  have hten : (0 : ℚ) < 10 ^ k := by positivity
  have hpos : (0 : ℚ) < p * 10 ^ k := by positivity
  have hmultiple : |q * 10 ^ k - p * 10 ^ k| * 2 ^ 55 ≤ p * 10 ^ k := by
    rw [← sub_mul, abs_mul, abs_of_pos hten, mul_right_comm]
    exact mul_le_mul_of_nonneg_right hclose hten.le
  have htriangle := abs_sub_le (s.value : ℚ) (q * 10 ^ k) (p * 10 ^ k)
  have hbelow := neg_abs_le (s.value - (p * 10 ^ k : ℚ))
  rw [abs_sub_comm (s.value : ℚ) (q * 10 ^ k)] at htriangle
  rcases hs.of_nonpos hk with hzero | ⟨hlarge, herror⟩
  · linarith
  · have hlargeq : (2 : ℚ) ^ 60 ≤ s.value := by exact_mod_cast hlarge
    linarith

/-- The powers of ten that matter are exact, and so is what they are multiplied by. -/
theorem bounds_of_multiple_lt (hp : 1 ≤ p) (hlt : p < 2 ^ 16) (hmultiple : p * 10 ^ k < 2 ^ 65) :
    k ≤ 19 ∧ p * 5 ^ k < 2 ^ 53 := by
  constructor
  · by_contra hk
    have hten : 10 ^ 20 ≤ 10 ^ k := Nat.pow_le_pow_right (by decide) (by omega)
    have hle : 10 ^ k ≤ p * 10 ^ k := Nat.le_mul_of_pos_left _ hp
    omega
  · by_cases hk : k ≤ 12
    · have hfive : 5 ^ k ≤ 5 ^ 12 := Nat.pow_le_pow_right (by decide) hk
      calc p * 5 ^ k ≤ 2 ^ 16 * 5 ^ 12 := Nat.mul_le_mul hlt.le hfive
        _ < 2 ^ 53 := by norm_num
    · have htwo : 2 ^ 13 ≤ 2 ^ k := Nat.pow_le_pow_right (by decide) (by omega)
      have hsplit : p * 10 ^ k = p * 5 ^ k * 2 ^ k := by rw [Nat.mul_assoc, ← Nat.mul_pow]
      have hle : p * 5 ^ k * 2 ^ 13 ≤ p * 10 ^ k := hsplit ▸ Nat.mul_le_mul_left _ htwo
      omega

/-- What is close enough to a small whole number is worth that number. -/
theorem scale_of_close (hs : s.Approximates q) (h64 : s.value < 2 ^ 64) (hp : 1 ≤ p)
    (hlt : p < 2 ^ 16) (hclose : |q - p| * 2 ^ 55 ≤ p) :
    ∃ x, (Dyadic.ofNat s.value).bind (·.scale s.power) = some x ∧ x.value = p := by
  obtain ⟨y, x, hy, hx, hvalue⟩ : ∃ y x, Dyadic.ofNat s.value = some y ∧
      y.scale s.power = some x ∧ x.value = p := by
    cases hpower : s.power with
    | ofNat k =>
      have hexact := value_eq_of_close hs hpower hlt hclose
      have hn : s.value ≠ 0 := by
        intro hzero
        rw [hzero, Nat.zero_mul] at hexact
        omega
      rw [← hexact]
      exact Dyadic.exists_scaleUp hn (by omega)
    | negSucc k =>
      have hnear := value_close_of_close (k := k + 1) hs hpower hp hclose
      have hmultiple : p * 10 ^ (k + 1) < 2 ^ 65 := by
        have hn : (s.value : ℚ) < 2 ^ 64 := by exact_mod_cast h64
        have hbelow := neg_abs_le (s.value - (p * 10 ^ (k + 1) : ℚ))
        have hmultipleq : (p : ℚ) * 10 ^ (k + 1) < 2 ^ 65 := by linarith
        exact_mod_cast hmultipleq
      obtain ⟨hk, hfive⟩ := bounds_of_multiple_lt hp hlt hmultiple
      exact Dyadic.exists_scaleDown hp hk hfive (h64.trans (by norm_num)) hnear
  exact ⟨x, by rw [hy]; exact hx, hvalue⟩

end NumberLiteral.Significand

namespace NumberLiteral

variable {n : NumberLiteral} {p : ℕ}

/-! ## What a literal is worth -/

/-- The number that a literal is worth in floating point; none if it is too large. -/
def worth? (n : NumberLiteral) : Option ℚ :=
  n.magnitude?.map fun x => if n.negative then -x.value else x.value

theorem exactMagnitude_nonneg (n : NumberLiteral) : 0 ≤ n.exactMagnitude := by
  have hten := ten_zpow_pos (n.power - n.fraction.length)
  rw [exactMagnitude]
  positivity

/-- A positive number is worth what its magnitude is. -/
theorem worth?_eq_some_iff (hp : 1 ≤ p) :
    n.worth? = some (p : ℚ) ↔ n.negative = false ∧ ∃ x, n.magnitude? = some x ∧ x.value = p := by
  have hpq : (1 : ℚ) ≤ p := by exact_mod_cast hp
  rw [worth?, Option.map_eq_some_iff]
  constructor
  · rintro ⟨x, hx, hvalue⟩
    have hnonneg := x.value_nonneg
    cases hnegative : n.negative with
    | true =>
      rw [hnegative, if_pos rfl] at hvalue
      linarith
    | false =>
      rw [hnegative, if_neg Bool.false_ne_true] at hvalue
      exact ⟨rfl, x, hx, hvalue⟩
  · rintro ⟨hnegative, x, hx, hvalue⟩
    exact ⟨x, hx, by rw [hnegative, if_neg Bool.false_ne_true, hvalue]⟩

theorem isSome_of_worth? {q : ℚ} (h : n.worth? = some q) : n.magnitude?.isSome = true := by
  obtain ⟨x, hx, -⟩ := Option.map_eq_some_iff.mp h
  rw [hx]
  rfl

theorem error_of_worth? (h : n.WellFormed) (hworth : n.worth? = some (p : ℚ)) (hp : 1 ≤ p)
    (hlt : p < 2 ^ 16) : |n.exactValue - p| * 2 ^ 51 ≤ p := by
  obtain ⟨hnegative, x, hx, hvalue⟩ := (worth?_eq_some_iff hp).mp hworth
  rw [exactValue, hnegative, if_neg Bool.false_ne_true]
  exact Significand.error_of_scale (significand_approximates h.wholeDigits h.fractionDigits)
    n.significand_lt hx hvalue hp hlt

theorem worth?_of_close (h : n.WellFormed) (hp : 1 ≤ p) (hlt : p < 2 ^ 16)
    (hclose : |n.exactValue - p| * 2 ^ 55 ≤ p) : n.worth? = some (p : ℚ) := by
  have hpq : (1 : ℚ) ≤ p := by exact_mod_cast hp
  have hnonneg := n.exactMagnitude_nonneg
  cases hnegative : n.negative with
  | true =>
    -- a number below zero is not close to one above
    rw [exactValue, hnegative, if_pos rfl] at hclose
    have hbelow := neg_abs_le (-n.exactMagnitude - p)
    linarith
  | false =>
    rw [exactValue, hnegative, if_neg Bool.false_ne_true] at hclose
    exact (worth?_eq_some_iff hp).mpr ⟨hnegative,
      Significand.scale_of_close (significand_approximates h.wholeDigits h.fractionDigits)
        n.significand_lt hp hlt hclose⟩

/-- A number that takes no more than 15 digits to write is close to a whole number of 16 bits only
if it is that number. -/
theorem eq_of_error {q : ℚ} {d : ℕ} {e : ℤ} (hd : d < 10 ^ 15) (hq : |q| = d * 10 ^ e)
    (hp : 1 ≤ p) (hlt : p < 2 ^ 16) (herror : |q - p| * 2 ^ 51 ≤ p) : q = p := by
  have hpq : (1 : ℚ) ≤ p := by exact_mod_cast hp
  have hltq : (p : ℚ) < 2 ^ 16 := by exact_mod_cast hlt
  have hnonneg : 0 ≤ q := by
    have hbelow := neg_abs_le (q - p)
    linarith
  rw [abs_of_nonneg hnonneg] at hq
  obtain ⟨k, rfl | rfl⟩ := Int.eq_nat_or_neg e
  · rw [zpow_natCast] at hq
    have hwhole : q = (d * 10 ^ k : ℕ) := by
      rw [hq]
      push_cast
      rfl
    rw [hwhole] at herror ⊢
    exact_mod_cast Dyadic.eq_of_abs_sub_lt_one (by linarith : |((d * 10 ^ k : ℕ) : ℚ) - p| < 1)
  · -- in units of the last digit both are whole numbers, and neither is large
    have hten : (0 : ℚ) < 10 ^ k := by positivity
    have hscaled : q * 10 ^ k = d := by
      rw [hq, zpow_neg, zpow_natCast, mul_assoc, inv_mul_cancel₀ hten.ne', mul_one]
    have hunits : |(d : ℚ) - p * 10 ^ k| * 2 ^ 51 ≤ p * 10 ^ k := by
      rw [← hscaled, ← sub_mul, abs_mul, abs_of_pos hten, mul_right_comm]
      exact mul_le_mul_of_nonneg_right herror hten.le
    have hdq : (d : ℚ) < 10 ^ 15 := by exact_mod_cast hd
    have hbelow := neg_abs_le ((d : ℚ) - p * 10 ^ k)
    have hone : |(d : ℚ) - (p * 10 ^ k : ℕ)| < 1 := by
      push_cast
      linarith
    refine mul_right_cancel₀ hten.ne' (hscaled.trans ?_)
    exact_mod_cast Dyadic.eq_of_abs_sub_lt_one hone

end NumberLiteral

end EdgeClient
