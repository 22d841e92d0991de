import EdgeClient.Proofs.Json.Scaling

/-!
# Whole numbers in floating point

A whole number of at most 53 bits is not changed by rounding, so a literal that writes such a number
out is worth exactly that number: its digits all fit into the significand, and there is nothing to
scale by.
-/

namespace EdgeClient.NumberLiteral

/-- Digits whose number fits into 64 bits are all gathered. -/
theorem Significand.takeWhole_eq {digits : List Nat} {s : Significand}
    (h : digits.foldl (fun n d => 10 * n + d) s.value < 2 ^ 64) :
    Significand.takeWhole digits s =
      { s with value := digits.foldl (fun n d => 10 * n + d) s.value } := by
  induction digits generalizing s with
  | nil => rfl
  | cons d digits ih =>
    rw [List.foldl_cons] at h
    have hle : 10 * s.value + d ≤ (10 * s.value + d) * 10 ^ digits.length :=
      Nat.le_mul_of_pos_right _ (Nat.pow_pos (by decide))
    have hfits : s.fits d = true := by
      rw [foldl_digits] at h
      exact decide_eq_true (by omega)
    have hrest := ih (s := { s with value := 10 * s.value + d }) h
    rw [Significand.takeWhole, if_pos hfits, hrest, List.foldl_cons]

theorem valueOf_whole_ofNat (n : Nat) : valueOf (ofNat n).whole = n := by
  have hdigits : valueOf (ofNat n).whole = Nat.ofDigitChars 10 (Nat.toDigits 10 n) 0 := by
    rw [valueOf, ofNat, List.foldl_map]
    rfl
  rw [hdigits]
  exact Nat.ofDigitChars_ten_toDigits

theorem significand_ofNat {n : Nat} (h : n < 2 ^ 64) : (ofNat n).significand = ⟨n, 0⟩ := by
  have hvalue : (ofNat n).whole.foldl (fun n d => 10 * n + d) 0 = n := valueOf_whole_ofNat n
  have htake : Significand.takeWhole (ofNat n).whole {} = ⟨n, 0⟩ := by
    rw [Significand.takeWhole_eq (hvalue.symm ▸ h)]
    exact congrArg (Significand.mk · 0) hvalue
  rw [significand, htake]
  rfl

theorem exists_magnitude?_ofNat {n : Nat} (h : n ≠ 0) (hlt : n < 2 ^ 53) :
    ∃ x, (ofNat n).magnitude? = some x ∧ x.value = n := by
  have hwide : n < 2 ^ 64 := Nat.lt_trans hlt (by decide)
  have hsteps : (ofNat n).magnitude? =
      (Dyadic.ofNat (ofNat n).significand.value).bind (·.scale (ofNat n).significand.power) := rfl
  obtain ⟨x, y, hx, hy, hvalue⟩ := Dyadic.exists_scaleUp (k := 0) h (by omega)
  rw [Nat.pow_zero, Nat.mul_one] at hvalue
  rw [hsteps, significand_ofNat hwide, hx, Option.bind_some]
  exact ⟨y, hy, hvalue⟩

theorem isSome_magnitude?_ofNat {n : Nat} (hlt : n < 2 ^ 53) :
    (ofNat n).magnitude?.isSome = true := by
  by_cases h : n = 0
  · rw [h]
    decide
  · obtain ⟨x, hx, -⟩ := exists_magnitude?_ofNat h hlt
    rw [hx]
    rfl

end EdgeClient.NumberLiteral
