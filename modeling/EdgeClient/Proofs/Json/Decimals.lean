import EdgeClient.Proofs.Json.Literals
import Mathlib.Algebra.Order.Field.Power
import Mathlib.Algebra.Order.Field.Rat
import Mathlib.Tactic.Linarith
import Mathlib.Tactic.Positivity
import Mathlib.Tactic.Ring

/-!
# The number that a literal writes down

The digits of a literal that fit into 64 bits make up its significand. If there are others, then the
significand is large, and the number that is written differs from it in the last place only. It is
not enough to look at where the digits are cut off: when a digit before the point has not fitted, a
smaller one after the point may still fit, and is taken in its place.
-/

namespace EdgeClient.NumberLiteral

/-- The number that a literal writes down, but for its sign. -/
def exactMagnitude (n : NumberLiteral) : ℚ :=
  valueOf (n.whole ++ n.fraction) * 10 ^ (n.power - n.fraction.length)

/-- The number that a literal writes down. -/
def exactValue (n : NumberLiteral) : ℚ :=
  if n.negative then -n.exactMagnitude else n.exactMagnitude

/-! ## Digits -/

theorem foldl_digits (digits : List ℕ) (n : ℕ) :
    digits.foldl (fun n d => 10 * n + d) n = n * 10 ^ digits.length + valueOf digits := by
  induction digits generalizing n with
  | nil => simp [valueOf]
  | cons d digits ih =>
    have hzero : valueOf (d :: digits) = d * 10 ^ digits.length + valueOf digits := by
      rw [valueOf, List.foldl_cons, ih, Nat.mul_zero, Nat.zero_add]
    rw [List.foldl_cons, ih, hzero, List.length_cons]
    ring

theorem valueOf_cons (d : ℕ) (digits : List ℕ) :
    valueOf (d :: digits) = d * 10 ^ digits.length + valueOf digits := by
  rw [valueOf, List.foldl_cons, foldl_digits, Nat.mul_zero, Nat.zero_add]

theorem valueOf_lt {digits : List ℕ} (h : AreDigits digits) :
    valueOf digits < 10 ^ digits.length := by
  induction digits with
  | nil => exact Nat.one_pos
  | cons d digits ih =>
    obtain ⟨hd, hdigits⟩ := List.forall_mem_cons.mp h
    have hrest := ih hdigits
    have hfirst : d * 10 ^ digits.length ≤ 9 * 10 ^ digits.length :=
      Nat.mul_le_mul_right _ (by omega)
    rw [valueOf_cons, List.length_cons, Nat.pow_succ]
    omega

theorem ten_zpow_pos (k : ℤ) : (0 : ℚ) < 10 ^ k := zpow_pos (by norm_num) k

theorem ten_zpow_add (k l : ℤ) : (10 : ℚ) ^ (k + l) = 10 ^ k * 10 ^ l :=
  zpow_add₀ (by norm_num) k l

namespace Significand

/-- The number that it stands for. -/
def number (s : Significand) : ℚ := s.value * 10 ^ s.power

/-- The number that it is the beginning of, given the digits that follow it. -/
def followedBy (s : Significand) (rest : List ℕ) : ℚ :=
  (s.value * 10 ^ rest.length + valueOf rest) * 10 ^ (s.power - rest.length)

theorem followedBy_nil (s : Significand) : s.followedBy [] = s.number := by
  simp [followedBy, number, valueOf]

theorem followedBy_cons (s : Significand) (d : ℕ) (rest : List ℕ) :
    s.followedBy (d :: rest) = followedBy ⟨10 * s.value + d, s.power - 1⟩ rest := by
  have hpower : s.power - ((d :: rest).length : ℕ) = s.power - 1 - rest.length := by
    rw [List.length_cons]
    omega
  rw [followedBy, followedBy, hpower, valueOf_cons, List.length_cons]
  push_cast
  ring

/-- The digits that follow do not make up for one more in the last place. -/
theorem followedBy_bounds (s : Significand) {rest : List ℕ} (h : AreDigits rest) :
    s.number ≤ s.followedBy rest ∧ s.followedBy rest < s.number + 10 ^ s.power := by
  have hpos := ten_zpow_pos (s.power - rest.length)
  have hunit : (10 : ℚ) ^ s.power = 10 ^ rest.length * 10 ^ (s.power - rest.length) := by
    rw [← zpow_natCast, ← ten_zpow_add]
    congr 1
    omega
  have hlt : (valueOf rest : ℚ) < 10 ^ rest.length := by exact_mod_cast valueOf_lt h
  have hrest : (valueOf rest : ℚ) * 10 ^ (s.power - rest.length) <
      10 ^ rest.length * 10 ^ (s.power - rest.length) := mul_lt_mul_of_pos_right hlt hpos
  have hnonneg : (0 : ℚ) ≤ valueOf rest * 10 ^ (s.power - rest.length) := by positivity
  rw [number, followedBy, hunit, add_mul, ← mul_assoc]
  constructor
  · linarith
  · linarith

/-! ## Gathering digits -/

/-- A significand that has no room for another digit is large. -/
theorem two_pow_le_of_not_fits {s : Significand} {d : ℕ} (h : ¬ s.fits d = true) (hd : d < 10) :
    2 ^ 60 ≤ s.value := by
  rw [fits, decide_eq_true_eq] at h
  omega

/-- Digits before the point that are left out still count as digits of the number. -/
theorem takeWhole_spec {digits : List ℕ} (h : AreDigits digits) (fraction : List ℕ)
    (s : Significand) : ∃ rest, AreDigits rest ∧
      (takeWhole digits s).followedBy (rest ++ fraction) =
        followedBy ⟨s.value, s.power + digits.length⟩ (digits ++ fraction) ∧
      (rest = [] ∨ 2 ^ 60 ≤ (takeWhole digits s).value) := by
  induction digits generalizing s with
  | nil => exact ⟨[], nofun, by simp [takeWhole], Or.inl rfl⟩
  | cons d digits ih =>
    obtain ⟨hd, hdigits⟩ := List.forall_mem_cons.mp h
    by_cases hfits : s.fits d = true
    · obtain ⟨rest, hrest, hnumber, hcut⟩ := ih hdigits ⟨10 * s.value + d, s.power⟩
      rw [takeWhole, if_pos hfits]
      refine ⟨rest, hrest, hnumber.trans ?_, hcut⟩
      have hpower : s.power + ((d :: digits).length : ℕ) - 1 = s.power + digits.length := by
        rw [List.length_cons]
        omega
      rw [List.cons_append, followedBy_cons, hpower]
    · rw [takeWhole, if_neg hfits]
      exact ⟨d :: digits, h, rfl, Or.inr (two_pow_le_of_not_fits hfits hd)⟩

theorem takeFraction_spec {digits : List ℕ} (h : AreDigits digits) (s : Significand) :
    ∃ rest, AreDigits rest ∧ (takeFraction digits s).followedBy rest = s.followedBy digits ∧
      (rest = [] ∨ 2 ^ 60 ≤ (takeFraction digits s).value) := by
  induction digits generalizing s with
  | nil => exact ⟨[], nofun, rfl, Or.inl rfl⟩
  | cons d digits ih =>
    obtain ⟨hd, hdigits⟩ := List.forall_mem_cons.mp h
    by_cases hfits : s.fits d = true
    · obtain ⟨rest, hrest, hnumber, hcut⟩ := ih hdigits ⟨10 * s.value + d, s.power - 1⟩
      rw [takeFraction, if_pos hfits, followedBy_cons]
      exact ⟨rest, hrest, hnumber, hcut⟩
    · rw [takeFraction, if_neg hfits]
      exact ⟨d :: digits, h, rfl, Or.inr (two_pow_le_of_not_fits hfits hd)⟩

/-- A large significand takes in one more digit at most. -/
theorem takeFraction_of_large {s : Significand} (h : 2 ^ 60 ≤ s.value) {digits : List ℕ}
    (hdigits : AreDigits digits) : takeFraction digits s = s ∨
      ∃ d < 10, takeFraction digits s = ⟨10 * s.value + d, s.power - 1⟩ := by
  cases digits with
  | nil => exact Or.inl rfl
  | cons d digits =>
    obtain ⟨hd, -⟩ := List.forall_mem_cons.mp hdigits
    by_cases hfits : s.fits d = true
    · right
      refine ⟨d, hd, ?_⟩
      rw [takeFraction, if_pos hfits]
      cases digits with
      | nil => rfl
      | cons d' digits =>
        have hfull : ¬ fits ⟨10 * s.value + d, s.power - 1⟩ d' = true := by
          rw [fits, decide_eq_true_eq]
          show ¬ 10 * (10 * s.value + d) + d' < 0x10000000000000000
          omega
        rw [takeFraction, if_neg hfull]
    · left
      rw [takeFraction, if_neg hfits]

theorem takeWhole_lt (digits : List ℕ) {s : Significand} (h : s.value < 2 ^ 64) :
    (takeWhole digits s).value < 2 ^ 64 := by
  induction digits generalizing s with
  | nil => exact h
  | cons d digits ih =>
    by_cases hfits : s.fits d = true
    · rw [takeWhole, if_pos hfits]
      exact ih (of_decide_eq_true hfits)
    · rw [takeWhole, if_neg hfits]
      exact h

theorem takeFraction_lt (digits : List ℕ) {s : Significand} (h : s.value < 2 ^ 64) :
    (takeFraction digits s).value < 2 ^ 64 := by
  induction digits generalizing s with
  | nil => exact h
  | cons d digits ih =>
    by_cases hfits : s.fits d = true
    · rw [takeFraction, if_pos hfits]
      exact ih (of_decide_eq_true hfits)
    · rw [takeFraction, if_neg hfits]
      exact h

/-- Whether it is a number, or is large and differs from it in the last place only. -/
def Approximates (s : Significand) (q : ℚ) : Prop :=
  q = s.number ∨ (2 ^ 60 ≤ s.value ∧ |q - s.number| ≤ 10 * 10 ^ s.power)

theorem approximates_of_followedBy {s : Significand} {rest : List ℕ} {q : ℚ} (h : AreDigits rest)
    (hq : s.followedBy rest = q) (hcut : rest = [] ∨ 2 ^ 60 ≤ s.value) : s.Approximates q := by
  rcases hcut with rfl | hlarge
  · exact Or.inl (hq.symm.trans s.followedBy_nil)
  · right
    have hpos := ten_zpow_pos s.power
    obtain ⟨hle, hlt⟩ := s.followedBy_bounds h
    rw [hq] at hle hlt
    refine ⟨hlarge, ?_⟩
    rw [abs_of_nonneg (by linarith)]
    linarith

/-- A digit after the point that is taken in place of one before it does no harm. -/
theorem approximates_of_misplaced {s : Significand} {rest : List ℕ} {d : ℕ} {q : ℚ}
    (h : AreDigits rest) (hq : s.followedBy rest = q) (hlarge : 2 ^ 60 ≤ s.value) (hd : d < 10) :
    Approximates ⟨10 * s.value + d, s.power - 1⟩ q := by
  right
  have hpos := ten_zpow_pos (s.power - 1)
  obtain ⟨hle, hlt⟩ := s.followedBy_bounds h
  rw [hq] at hle hlt
  have hunit : (10 : ℚ) ^ s.power = 10 * 10 ^ (s.power - 1) := by
    rw [zpow_sub_one₀ (by norm_num)]
    ring
  have hnumber : s.number = 10 * s.value * 10 ^ (s.power - 1) := by
    rw [number, hunit]
    ring
  have hplace : number ⟨10 * s.value + d, s.power - 1⟩ = s.number + d * 10 ^ (s.power - 1) := by
    rw [hnumber, number]
    push_cast
    ring
  have hten : (d : ℚ) ≤ 10 := by exact_mod_cast hd.le
  have hdigit : (d : ℚ) * 10 ^ (s.power - 1) ≤ 10 * 10 ^ (s.power - 1) :=
    mul_le_mul_of_nonneg_right hten hpos.le
  have hnonneg : (0 : ℚ) ≤ d * 10 ^ (s.power - 1) := by positivity
  refine ⟨hlarge.trans (by show s.value ≤ 10 * s.value + d; omega), ?_⟩
  rw [hplace, abs_le]
  constructor
  · show -(10 * (10 : ℚ) ^ (s.power - 1)) ≤ _
    linarith
  · show _ ≤ 10 * (10 : ℚ) ^ (s.power - 1)
    linarith

theorem Approximates.scaled {s : Significand} {q : ℚ} (h : s.Approximates q) (k : ℤ) :
    Approximates { s with power := s.power + k } (q * 10 ^ k) := by
  have hnumber : number { s with power := s.power + k } = s.number * 10 ^ k := by
    rw [number, number, ten_zpow_add]
    ring
  rcases h with rfl | ⟨hlarge, herror⟩
  · exact Or.inl hnumber.symm
  · right
    refine ⟨hlarge, ?_⟩
    rw [hnumber, ← sub_mul, abs_mul, abs_of_pos (ten_zpow_pos k), ten_zpow_add, ← mul_assoc]
    exact mul_le_mul_of_nonneg_right herror (ten_zpow_pos k).le

end Significand

theorem significand_lt (n : NumberLiteral) : n.significand.value < 2 ^ 64 :=
  Significand.takeFraction_lt _ (Significand.takeWhole_lt _ (Nat.two_pow_pos 64))

/-- The significand of a literal is its number, or the front of it. -/
theorem significand_approximates {n : NumberLiteral} (hwhole : AreDigits n.whole)
    (hfraction : AreDigits n.fraction) : n.significand.Approximates n.exactMagnitude := by
  obtain ⟨dropped, hdropped, hnumber, hcut⟩ :=
    Significand.takeWhole_spec hwhole n.fraction {}
  have hunscaled : Significand.followedBy ⟨0, 0 + n.whole.length⟩ (n.whole ++ n.fraction) *
      10 ^ n.power = n.exactMagnitude := by
    have hpower : (0 : ℤ) + n.whole.length - (n.whole ++ n.fraction).length + n.power =
        n.power - n.fraction.length := by
      rw [List.length_append]
      omega
    rw [Significand.followedBy, mul_assoc, ← ten_zpow_add, hpower, exactMagnitude, Nat.cast_zero,
      zero_mul, zero_add]
  rw [← hunscaled]
  refine Significand.Approximates.scaled ?_ n.power
  rw [← hnumber]
  generalize Significand.takeWhole n.whole {} = s at hcut ⊢
  rcases hcut with rfl | hlarge
  · obtain ⟨rest, hrest, hfollowed, hcut⟩ := Significand.takeFraction_spec hfraction s
    exact Significand.approximates_of_followedBy hrest hfollowed hcut
  · have hrest : AreDigits (dropped ++ n.fraction) :=
      List.forall_mem_append.mpr ⟨hdropped, hfraction⟩
    rcases Significand.takeFraction_of_large hlarge hfraction with hsame | ⟨d, hd, hmore⟩
    · rw [hsame]
      exact Significand.approximates_of_followedBy hrest rfl (Or.inr hlarge)
    · rw [hmore]
      exact Significand.approximates_of_misplaced hrest rfl hlarge hd

end EdgeClient.NumberLiteral
