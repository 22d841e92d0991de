import EdgeClient.Json.Rounding
import Mathlib.Algebra.Order.Field.Power
import Mathlib.Algebra.Order.Field.Rat
import Mathlib.Tactic.FieldSimp
import Mathlib.Tactic.GCongr
import Mathlib.Tactic.Linarith
import Mathlib.Tactic.Positivity
import Mathlib.Tactic.Ring

/-!
# Rounding, in rational numbers

The rounding works on fractions of natural numbers. Here it is measured against the rational number
that a fraction is: a rounded number is as close as its last bit allows, and a number that has only
53 significant bits is hit exactly, also from close by. `Rounds` is all that is used of it later.
-/

namespace EdgeClient.Dyadic

/-- The number that it is. -/
def value (x : Dyadic) : ℚ := x.mantissa * 2 ^ x.exponent

/-! ## Values -/

theorem two_zpow_pos (s : ℤ) : (0 : ℚ) < 2 ^ s := zpow_pos two_pos s

theorem two_zpow_le {s t : ℤ} (h : s ≤ t) : (2 : ℚ) ^ s ≤ 2 ^ t :=
  zpow_le_zpow_right₀ one_le_two h

theorem lt_of_two_zpow_lt {s t : ℤ} (h : (2 : ℚ) ^ s < 2 ^ t) : s < t :=
  (zpow_lt_zpow_iff_right₀ one_lt_two).mp h

theorem two_zpow_add (s t : ℤ) : (2 : ℚ) ^ (s + t) = 2 ^ s * 2 ^ t := zpow_add₀ two_ne_zero s t

/-- A power of two as a fraction. -/
theorem two_zpow_eq_div (s : ℤ) : (2 : ℚ) ^ s = 2 ^ s.toNat / 2 ^ (-s).toNat := by
  have hs : s = (s.toNat : ℤ) - ((-s).toNat : ℤ) := by omega
  have hpow := zpow_sub₀ (two_ne_zero (α := ℚ)) (s.toNat : ℤ) ((-s).toNat : ℤ)
  rw [← hs, zpow_natCast, zpow_natCast] at hpow
  exact hpow

theorem value_nonneg (x : Dyadic) : 0 ≤ x.value :=
  mul_nonneg (Nat.cast_nonneg _) (two_zpow_pos _).le

theorem value_eq_zero {x : Dyadic} (h : x.mantissa = 0) : x.value = 0 := by
  rw [value, h, Nat.cast_zero, zero_mul]

/-- Numbers of this size are far from the largest. -/
theorem cast_lt_two_zpow {n : ℕ} (h : n < 2 ^ 100) : (n : ℚ) < 2 ^ (200 : ℤ) := by
  have hcast : (n : ℚ) < 2 ^ 100 := by exact_mod_cast h
  exact hcast.trans (by norm_num)

/-- Whole numbers that are less than one apart are the same. -/
theorem eq_of_abs_sub_lt_one {m n : ℕ} (h : |(m : ℚ) - n| < 1) : m = n := by
  have hint : |(m : ℤ) - n| < 1 := by exact_mod_cast h
  have hzero := Int.abs_lt_one_iff.mp hint
  omega

theorem denominator_pos (x : Dyadic) : 0 < x.denominator := by
  rw [denominator, Nat.one_shiftLeft]
  exact Nat.two_pow_pos _

theorem value_eq_div (x : Dyadic) : x.value = x.numerator / x.denominator := by
  rw [value, numerator, denominator, Nat.shiftLeft_eq, Nat.one_shiftLeft, two_zpow_eq_div]
  push_cast
  rw [mul_div_assoc]

theorem whole?_eq_some_iff {x : Dyadic} {n : ℕ} : x.whole? = some n ↔ x.value = n := by
  have hden := x.denominator_pos
  have hdenq : (0 : ℚ) < x.denominator := Nat.cast_pos.mpr hden
  rw [value_eq_div, div_eq_iff hdenq.ne', whole?, Option.ite_none_right_eq_some]
  constructor
  · rintro ⟨hmod, hdiv⟩
    have hdvd := Nat.div_mul_cancel (Nat.dvd_of_mod_eq_zero hmod)
    rw [Option.some.inj hdiv] at hdvd
    exact_mod_cast hdvd.symm
  · intro h
    have hnum : x.numerator = n * x.denominator := by exact_mod_cast h
    rw [hnum, Nat.mul_mod_left, Nat.mul_div_cancel _ hden]
    exact ⟨rfl, rfl⟩

/-! ## Rounding a fraction -/

/-- The nearest whole number is off by a half at most. -/
theorem roundHalfEven_error (num : ℕ) {den : ℕ} (h : 0 < den) :
    |(roundHalfEven num den : ℚ) - num / den| ≤ 1 / 2 := by
  have hsplit := Nat.div_add_mod num den
  have hlt := Nat.mod_lt num h
  have hbounds : 2 * num ≤ 2 * (roundHalfEven num den * den) + den ∧
      2 * (roundHalfEven num den * den) ≤ 2 * num + den := by
    rw [roundHalfEven]
    generalize num / den = q at *
    generalize num % den = r at *
    rw [Nat.mul_comm den q] at hsplit
    by_cases hup : den < 2 * r ∨ (2 * r = den ∧ q % 2 = 1)
    · rw [if_pos hup, Nat.add_mul, Nat.one_mul]
      omega
    · rw [if_neg hup]
      omega
  have hden : (0 : ℚ) < den := Nat.cast_pos.mpr h
  have hle : (2 : ℚ) * num ≤ 2 * (roundHalfEven num den * den) + den := by exact_mod_cast hbounds.1
  have hge : (2 : ℚ) * (roundHalfEven num den * den) ≤ 2 * num + den := by exact_mod_cast hbounds.2
  have hnum : (num : ℚ) / den * den = num := div_mul_cancel₀ _ hden.ne'
  rw [abs_le]
  constructor
  · refine le_of_mul_le_mul_right ?_ hden
    linarith
  · refine le_of_mul_le_mul_right ?_ hden
    linarith

/-- A fraction is compared to a power of two without dividing. -/
theorem shiftLeft_lt_iff (num : ℕ) {den : ℕ} (h : 0 < den) (s : ℤ) :
    num <<< (-s).toNat < den <<< s.toNat ↔ (num : ℚ) / den < 2 ^ s := by
  have hden : (0 : ℚ) < den := Nat.cast_pos.mpr h
  have hpow : (0 : ℚ) < 2 ^ (-s).toNat := by positivity
  rw [two_zpow_eq_div, div_lt_div_iff₀ hden hpow, Nat.shiftLeft_eq, Nat.shiftLeft_eq,
    mul_comm _ (den : ℚ)]
  exact_mod_cast Iff.rfl

theorem magnitude_spec {num den : ℕ} (hnum : num ≠ 0) (hden : den ≠ 0) :
    (2 : ℚ) ^ magnitude num den ≤ num / den ∧ (num : ℚ) / den < 2 ^ (magnitude num den + 1) := by
  have hpos : (0 : ℚ) < den := Nat.cast_pos.mpr (Nat.pos_of_ne_zero hden)
  have hnumle : (2 : ℚ) ^ (num.log2 : ℤ) ≤ num := by exact_mod_cast Nat.log2_self_le hnum
  have hnumlt : (num : ℚ) < 2 ^ ((num.log2 : ℤ) + 1) := by
    exact_mod_cast Nat.lt_log2_self (n := num)
  have hdenle : (2 : ℚ) ^ (den.log2 : ℤ) ≤ den := by exact_mod_cast Nat.log2_self_le hden
  have hdenlt : (den : ℚ) < 2 ^ ((den.log2 : ℤ) + 1) := by
    exact_mod_cast Nat.lt_log2_self (n := den)
  have hbelow : (2 : ℚ) ^ ((num.log2 : ℤ) - den.log2 - 1) ≤ num / den := by
    rw [le_div_iff₀ hpos]
    calc (2 : ℚ) ^ ((num.log2 : ℤ) - den.log2 - 1) * den
        ≤ 2 ^ ((num.log2 : ℤ) - den.log2 - 1) * 2 ^ ((den.log2 : ℤ) + 1) :=
          mul_le_mul_of_nonneg_left hdenlt.le (two_zpow_pos _).le
      _ = 2 ^ (num.log2 : ℤ) := by
          rw [← two_zpow_add]
          congr 1
          omega
      _ ≤ num := hnumle
  have habove : (num : ℚ) / den < 2 ^ ((num.log2 : ℤ) - den.log2 + 1) := by
    rw [div_lt_iff₀ hpos]
    calc (num : ℚ) < 2 ^ ((num.log2 : ℤ) + 1) := hnumlt
      _ = 2 ^ ((num.log2 : ℤ) - den.log2 + 1) * 2 ^ (den.log2 : ℤ) := by
          rw [← two_zpow_add]
          congr 1
          omega
      _ ≤ 2 ^ ((num.log2 : ℤ) - den.log2 + 1) * den :=
          mul_le_mul_of_nonneg_left hdenle (two_zpow_pos _).le
  have htest := shiftLeft_lt_iff num (Nat.pos_of_ne_zero hden) ((num.log2 : ℤ) - den.log2)
  simp only [magnitude]
  by_cases h : (num : ℚ) / den < 2 ^ ((num.log2 : ℤ) - den.log2)
  · rw [if_pos (htest.mpr h), Int.sub_add_cancel]
    exact ⟨hbelow, h⟩
  · rw [if_neg (fun hlt => h (htest.mp hlt))]
    exact ⟨not_lt.mp h, habove⟩

/-- A rounded fraction counts in units of its last bit, and is off by half a unit at most. -/
theorem nearest_error {num den : ℕ} {x : Dyadic} (hnum : num ≠ 0) (hden : den ≠ 0)
    (h : nearest num den = some x) :
    x.exponent = max (magnitude num den - 52) minScale ∧
      |x.value - num / den| ≤ 2 ^ (x.exponent - 1) := by
  rw [nearest, if_neg hnum] at h
  generalize hscale : max (magnitude num den - 52) minScale = scale at h ⊢
  obtain ⟨-, hx⟩ := Option.ite_none_right_eq_some.mp h
  obtain rfl := Option.some.inj hx
  refine ⟨rfl, ?_⟩
  have hpos : 0 < den <<< scale.toNat := by
    rw [Nat.shiftLeft_eq]
    exact Nat.mul_pos (Nat.pos_of_ne_zero hden) (Nat.two_pow_pos _)
  have herror := roundHalfEven_error (num <<< (-scale).toNat) hpos
  have hquotient : ((num <<< (-scale).toNat : ℕ) : ℚ) / (den <<< scale.toNat : ℕ) * 2 ^ scale =
      num / den := by
    have hdenq : (den : ℚ) ≠ 0 := Nat.cast_ne_zero.mpr hden
    rw [two_zpow_eq_div, Nat.shiftLeft_eq, Nat.shiftLeft_eq]
    push_cast
    field_simp
  have hunit : (2 : ℚ) ^ (scale - 1) = 1 / 2 * 2 ^ scale := by
    rw [zpow_sub_one₀ two_ne_zero]
    ring
  rw [value, hunit, ← hquotient, ← sub_mul, abs_mul, abs_of_pos (two_zpow_pos scale)]
  exact mul_le_mul_of_nonneg_right herror (two_zpow_pos scale).le

theorem exists_nearest {num den : ℕ} (hnum : num ≠ 0) (h : magnitude num den < 200) :
    ∃ x, nearest num den = some x := by
  have hscale : max (magnitude num den - 52) minScale < maxScale := by
    rw [minScale, maxScale]
    omega
  rw [nearest, if_neg hnum]
  exact ⟨_, if_pos (Or.inl hscale)⟩

/-! ## What rounding does to a number -/

/-- What is known of a number that has been rounded. It is off by half of its last bit, of which the
smallest numbers have one that does not shrink with them; and a number of 53 bits is found exactly
from anywhere close to it. -/
structure Rounds (q : ℚ) (r : Option Dyadic) : Prop where
  error : ∀ x, r = some x → |x.value - q| * 2 ^ 53 ≤ q ∨ |x.value - q| ≤ 2 ^ (-1075 : ℤ)
  exact : ∀ (c : ℕ) (t : ℤ), c < 2 ^ 53 → -1074 ≤ t → q < 2 ^ (200 : ℤ) →
    |q - c * 2 ^ t| * 2 ^ 54 < q → ∃ x, r = some x ∧ x.value = c * 2 ^ t

theorem nearest_error_le {num den : ℕ} {x : Dyadic} (hden : den ≠ 0)
    (h : nearest num den = some x) :
    |x.value - num / den| * 2 ^ 53 ≤ num / den ∨ |x.value - num / den| ≤ 2 ^ (-1075 : ℤ) := by
  by_cases hnum : num = 0
  · rw [nearest, if_pos hnum] at h
    obtain rfl := Option.some.inj h
    left
    rw [value_eq_zero rfl, hnum, Nat.cast_zero, zero_div, sub_zero, abs_zero, zero_mul]
  obtain ⟨hexponent, herror⟩ := nearest_error hnum hden h
  obtain ⟨hbelow, -⟩ := magnitude_spec hnum hden
  rw [minScale] at hexponent
  by_cases hsmall : magnitude num den - 52 ≤ -1074
  · right
    have hunit : x.exponent - 1 = -1075 := by omega
    rwa [hunit] at herror
  · left
    have hunit : x.exponent - 1 + 53 = magnitude num den := by omega
    calc |x.value - num / den| * 2 ^ 53
        ≤ 2 ^ (x.exponent - 1) * 2 ^ (53 : ℤ) := by
          exact mul_le_mul_of_nonneg_right herror (by positivity)
      _ = 2 ^ magnitude num den := by rw [← two_zpow_add, hunit]
      _ ≤ num / den := hbelow

/-- Close to a number of 53 bits the last bit is worth no more than it is in that number. -/
theorem scale_le_of_close {q : ℚ} {m t : ℤ} {c : ℕ} (hbelow : 2 ^ m ≤ q) (habove : q < 2 ^ (m + 1))
    (hc : c < 2 ^ 53) (hclose : |q - c * 2 ^ t| * 2 ^ 54 < q) : m - 52 ≤ t := by
  by_contra hlt
  have ht : t + 53 ≤ m := by omega
  have hcq : (c : ℚ) + 1 ≤ 2 ^ (53 : ℤ) := by exact_mod_cast hc
  -- the number is below the power of two that `q` is not below, by one unit of its own
  have hunder : (c : ℚ) * 2 ^ t + 2 ^ (m - 53) ≤ 2 ^ m := by
    have hm : (2 : ℚ) ^ m = 2 ^ (53 : ℤ) * 2 ^ (m - 53) := by
      rw [← two_zpow_add]
      congr 1
      omega
    have hle : (c : ℚ) * 2 ^ t ≤ c * 2 ^ (m - 53) :=
      mul_le_mul_of_nonneg_left (two_zpow_le (by omega)) (Nat.cast_nonneg _)
    have hscaled := mul_le_mul_of_nonneg_right hcq (two_zpow_pos (m - 53)).le
    rw [add_mul, one_mul, ← hm] at hscaled
    linarith
  have hgap : (2 : ℚ) ^ (m - 53) ≤ |q - c * 2 ^ t| := by
    have hself := le_abs_self (q - c * 2 ^ t)
    linarith
  have hunit : (2 : ℚ) ^ (m - 53) * 2 ^ 54 = 2 ^ (m + 1) := by
    have hcast : (2 : ℚ) ^ 54 = 2 ^ (54 : ℤ) := rfl
    rw [hcast, ← two_zpow_add]
    congr 1
    omega
  have hscaled := mul_le_mul_of_nonneg_right hgap (by positivity : (0 : ℚ) ≤ 2 ^ 54)
  linarith

theorem nearest_of_close {num den c : ℕ} {t : ℤ} (hden : den ≠ 0) (hc : c < 2 ^ 53)
    (ht : -1074 ≤ t) (hlt : (num : ℚ) / den < 2 ^ (200 : ℤ))
    (hclose : |(num : ℚ) / den - c * 2 ^ t| * 2 ^ 54 < num / den) :
    ∃ x, nearest num den = some x ∧ x.value = c * 2 ^ t := by
  have hnum : num ≠ 0 := by
    rintro rfl
    rw [Nat.cast_zero, zero_div] at hclose
    exact absurd hclose (not_lt.mpr (by positivity))
  obtain ⟨hbelow, habove⟩ := magnitude_spec hnum hden
  have hmagnitude : magnitude num den < 200 := lt_of_two_zpow_lt (hbelow.trans_lt hlt)
  obtain ⟨x, hx⟩ := exists_nearest hnum hmagnitude
  obtain ⟨hexponent, herror⟩ := nearest_error hnum hden hx
  have hscale := scale_le_of_close hbelow habove hc hclose
  rw [minScale] at hexponent
  have hle : x.exponent ≤ t := by omega
  refine ⟨x, hx, ?_⟩
  -- both are whole numbers of units, and they are less than a unit apart
  obtain ⟨k, hk⟩ : ∃ k : ℕ, t = x.exponent + k := ⟨(t - x.exponent).toNat, by omega⟩
  have hr : (c : ℚ) * 2 ^ t = (c * 2 ^ k : ℕ) * 2 ^ x.exponent := by
    rw [hk, two_zpow_add, zpow_natCast]
    push_cast
    ring
  have hnear : |(num : ℚ) / den - c * 2 ^ t| < 2 ^ (x.exponent - 1) := by
    have hunit : (2 : ℚ) ^ (magnitude num den + 1) ≤ 2 ^ (x.exponent - 1) * 2 ^ 54 := by
      have hcast : (2 : ℚ) ^ 54 = 2 ^ (54 : ℤ) := rfl
      rw [hcast, ← two_zpow_add]
      exact two_zpow_le (by omega)
    refine lt_of_mul_lt_mul_right ?_ (by positivity : (0 : ℚ) ≤ 2 ^ 54)
    linarith
  have hapart : |x.value - c * 2 ^ t| < 2 ^ x.exponent := by
    have htriangle := abs_sub_le x.value ((num : ℚ) / den) (c * 2 ^ t)
    have hunit : (2 : ℚ) ^ x.exponent = 2 ^ (x.exponent - 1) + 2 ^ (x.exponent - 1) := by
      rw [zpow_sub_one₀ two_ne_zero]
      ring
    linarith
  rw [hr, value, ← sub_mul, abs_mul, abs_of_pos (two_zpow_pos _)] at hapart
  have hone : |(x.mantissa : ℚ) - (c * 2 ^ k : ℕ)| < 1 := by
    refine lt_of_mul_lt_mul_right ?_ (two_zpow_pos x.exponent).le
    rwa [one_mul]
  rw [hr, value, eq_of_abs_sub_lt_one hone]

theorem rounds_nearest (num : ℕ) {den : ℕ} (h : den ≠ 0) :
    Rounds (num / den) (nearest num den) where
  error _ hx := nearest_error_le h hx
  exact _ _ hc ht hlt hclose := nearest_of_close h hc ht hlt hclose

theorem rounds_ofNat (n : ℕ) : Rounds n (ofNat n) := by
  have hrounds := rounds_nearest n Nat.one_ne_zero
  rwa [Nat.cast_one, div_one] at hrounds

theorem rounds_mul (x y : Dyadic) : Rounds (x.value * y.value) (x.mul y) := by
  have hden : x.denominator * y.denominator ≠ 0 :=
    Nat.mul_ne_zero x.denominator_pos.ne' y.denominator_pos.ne'
  have hrounds := rounds_nearest (x.numerator * y.numerator) hden
  have hvalue : x.value * y.value =
      (x.numerator * y.numerator : ℕ) / (x.denominator * y.denominator : ℕ) := by
    rw [value_eq_div, value_eq_div, div_mul_div_comm]
    push_cast
    rfl
  rw [hvalue]
  exact hrounds

theorem rounds_div (x : Dyadic) {y : Dyadic} (h : 0 < y.value) :
    Rounds (x.value / y.value) (x.div y) := by
  have hy : y.numerator ≠ 0 := by
    intro hzero
    rw [value_eq_div, hzero, Nat.cast_zero, zero_div] at h
    exact lt_irrefl _ h
  have hrounds := rounds_nearest (x.numerator * y.denominator)
    (Nat.mul_ne_zero x.denominator_pos.ne' hy)
  have hvalue : x.value / y.value =
      (x.numerator * y.denominator : ℕ) / (x.denominator * y.numerator : ℕ) := by
    rw [value_eq_div, value_eq_div, div_div_div_eq]
    push_cast
    rfl
  rw [hvalue]
  exact hrounds

namespace Rounds

variable {q : ℚ} {r : Option Dyadic} {x : Dyadic}

/-- A number that has 53 bits stays as it is. -/
theorem exactly {n : ℕ} (h : Rounds n r) (hn : n ≠ 0) {c k : ℕ} (hc : c < 2 ^ 53)
    (heq : n = c * 2 ^ k) (hlt : n < 2 ^ 100) : ∃ x, r = some x ∧ x.value = n := by
  have hvalue : (c : ℚ) * 2 ^ (k : ℤ) = n := by
    rw [heq, zpow_natCast]
    push_cast
    rfl
  have hpos : (0 : ℚ) < n := Nat.cast_pos.mpr (Nat.pos_of_ne_zero hn)
  have hltq := cast_lt_two_zpow hlt
  rw [← hvalue] at h hltq hpos ⊢
  refine h.exact c k hc (by omega) hltq ?_
  rwa [sub_self, abs_zero, zero_mul]

/-- The relative error of a number that is not tiny. -/
theorem relative (h : Rounds q r) (hx : r = some x) (hq : 1 / 2 ≤ q) :
    |x.value - q| * 2 ^ 53 ≤ q := by
  rcases h.error x hx with herror | herror
  · exact herror
  · have htiny : (2 : ℚ) ^ (-1075 : ℤ) ≤ 2 ^ (-54 : ℤ) := two_zpow_le (by norm_num)
    have hunit : (2 : ℚ) ^ (-54 : ℤ) * 2 ^ 53 = 1 / 2 := by norm_num
    calc |x.value - q| * 2 ^ 53
        ≤ 2 ^ (-54 : ℤ) * 2 ^ 53 := mul_le_mul_of_nonneg_right (herror.trans htiny) (by positivity)
      _ = 1 / 2 := hunit
      _ ≤ q := hq

/-- What is at least one after rounding was not tiny before. -/
theorem half_le (h : Rounds q r) (hx : r = some x) (hone : 1 ≤ x.value) : 1 / 2 ≤ q := by
  have hself := le_abs_self (x.value - q)
  rcases h.error x hx with herror | herror
  · by_contra hlt
    have hscaled := mul_le_mul_of_nonneg_right hself (by positivity : (0 : ℚ) ≤ 2 ^ 53)
    linarith
  · have htiny : (2 : ℚ) ^ (-1075 : ℤ) ≤ 2 ^ (-1 : ℤ) := two_zpow_le (by norm_num)
    rw [zpow_neg_one] at htiny
    linarith

/-- What is below one half stays below one. -/
theorem lt_one (h : Rounds q r) (hx : r = some x) (hq : q < 1 / 2) : x.value < 1 := by
  by_contra hle
  exact absurd (h.half_le hx (not_lt.mp hle)) (not_le.mpr hq)

end Rounds

end EdgeClient.Dyadic
