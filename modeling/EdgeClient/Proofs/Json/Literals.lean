import EdgeClient.Json.Token

/-!
# Reading number literals

The texts that are read as a literal are the spellings of a well-formed one (`ofChars?_eq_some_iff`):
each of its parts runs up to a character that cannot belong to it. A literal has several spellings
only because of its exponent. The literal of a natural number is well formed.
-/

namespace EdgeClient.NumberLiteral

/-- Whether the numbers of a list are all decimal digits. -/
def AreDigits (digits : List Nat) : Prop := ∀ d ∈ digits, d < 10

/-- A literal whose parts are as its text has to have them: decimal digits, with no zero too many in
front, and an exponent that is not empty. -/
structure WellFormed (n : NumberLiteral) : Prop where
  whole : wellFormedWhole n.whole = true
  wholeDigits : AreDigits n.whole
  fractionDigits : AreDigits n.fraction
  exponentDigits : ∀ negative digits, n.exponent = some (negative, digits) →
    digits ≠ [] ∧ AreDigits digits

/-! ## Digits -/

theorem isDigit_of_mem_digitChars {digits : List Nat} (h : AreDigits digits) :
    ∀ c ∈ digitChars digits, c.isDigit = true := by
  intro c hc
  obtain ⟨d, hd, rfl⟩ := List.mem_map.mp hc
  rw [Nat.isDigit_digitChar]
  exact decide_eq_true (h d hd)

theorem map_digitValue_digitChars {digits : List Nat} (h : AreDigits digits) :
    (digitChars digits).map digitValue = digits := by
  rw [digitChars, List.map_map]
  calc digits.map (digitValue ∘ Nat.digitChar)
      = digits.map id :=
        List.map_congr_left fun d hd => Nat.toNat_digitChar_sub_48_of_lt_ten (h d hd)
    _ = digits := List.map_id digits

/-- Characters of one kind run up to the first that is of another. -/
theorem takeWhile_append_of_stop {p : Char → Bool} {front rest : List Char}
    (hfront : ∀ c ∈ front, p c = true) (hrest : ∀ c ∈ rest.head?, p c = false) :
    (front ++ rest).takeWhile p = front ∧ (front ++ rest).dropWhile p = rest := by
  rw [List.takeWhile_append_of_pos hfront, List.dropWhile_append_of_pos hfront]
  cases rest with
  | nil => exact ⟨List.append_nil front, rfl⟩
  | cons c rest =>
    have hc : ¬ p c = true := by
      rw [hrest c rfl]
      decide
    rw [List.takeWhile_cons_of_neg hc, List.dropWhile_cons_of_neg hc, List.append_nil]
    exact ⟨rfl, rfl⟩

theorem splitDigits_digitChars {digits : List Nat} (h : AreDigits digits) {rest : List Char}
    (hrest : ∀ c ∈ rest.head?, c.isDigit = false) :
    splitDigits (digitChars digits ++ rest) = (digits, rest) := by
  obtain ⟨htake, hdrop⟩ := takeWhile_append_of_stop (isDigit_of_mem_digitChars h) hrest
  rw [splitDigits, htake, hdrop, map_digitValue_digitChars h]

theorem ne_of_isDigit {c d : Char} (hc : c.isDigit = true) (hd : d.isDigit = false) : c ≠ d := by
  rintro rfl
  rw [hc] at hd
  exact absurd hd (by decide)

theorem exists_digitChars {digits : List Nat} (h : AreDigits digits) (hne : digits ≠ []) :
    ∃ c cs, digitChars digits = c :: cs ∧ c.isDigit = true := by
  cases digits with
  | nil => exact absurd rfl hne
  | cons d digits =>
    exact ⟨_, _, rfl, isDigit_of_mem_digitChars h _ List.mem_cons_self⟩

/-! ## The parts of a literal -/

/-- A minus sign, if there is one. -/
def minusChars (negative : Bool) : List Char := if negative then ['-'] else []

theorem eq_minus_of_mem {negative : Bool} {c : Char} (h : c ∈ minusChars negative) : c = '-' := by
  cases negative with
  | true => exact List.mem_singleton.mp h
  | false => exact absurd h List.not_mem_nil

theorem splitMinus_minusChars (negative : Bool) {c : Char} (h : c.isDigit = true)
    (rest : List Char) : splitMinus (minusChars negative ++ c :: rest) = (negative, c :: rest) := by
  cases negative with
  | true => rfl
  | false =>
    have hc : c ≠ '-' := ne_of_isDigit h (by decide)
    show splitMinus (c :: rest) = _
    unfold splitMinus
    split
    · rename_i heq
      exact absurd (List.cons.inj heq).1 hc
    · rfl

theorem splitSign_minusChars (negative : Bool) {c : Char} (h : c.isDigit = true)
    (rest : List Char) : splitSign (minusChars negative ++ c :: rest) = (negative, c :: rest) := by
  cases negative with
  | true => rfl
  | false =>
    have hminus : c ≠ '-' := ne_of_isDigit h (by decide)
    have hplus : c ≠ '+' := ne_of_isDigit h (by decide)
    show splitSign (c :: rest) = _
    unfold splitSign
    split
    · rename_i heq
      exact absurd (List.cons.inj heq).1 hminus
    · rename_i heq
      exact absurd (List.cons.inj heq).1 hplus
    · rfl

/-- The point and the digits after it, if there are any. -/
def fractionChars (digits : List Nat) : List Char :=
  if digits.isEmpty then [] else '.' :: digitChars digits

/-- How an exponent may be spelled: with a small or a large letter, and with or without a sign if
it is not negative. -/
inductive SpellsExponent : Option (Bool × List Nat) → List Char → Prop where
  | absent : SpellsExponent none []
  | unsigned {mark : Char} (digits : List Nat) : mark = 'e' ∨ mark = 'E' →
      SpellsExponent (some (false, digits)) (mark :: digitChars digits)
  | plus {mark : Char} (digits : List Nat) : mark = 'e' ∨ mark = 'E' →
      SpellsExponent (some (false, digits)) (mark :: '+' :: digitChars digits)
  | minus {mark : Char} (digits : List Nat) : mark = 'e' ∨ mark = 'E' →
      SpellsExponent (some (true, digits)) (mark :: '-' :: digitChars digits)

/-- Whether a text spells a literal. -/
def Spells (n : NumberLiteral) (cs : List Char) : Prop :=
  ∃ tail, SpellsExponent n.exponent tail ∧
    cs = minusChars n.negative ++ (digitChars n.whole ++ (fractionChars n.fraction ++ tail))

theorem spells_toChars (n : NumberLiteral) : Spells n n.toChars := by
  obtain ⟨negative, whole, fraction, exponent⟩ := n
  cases exponent with
  | none => exact ⟨[], .absent, by simp [toChars, minusChars, fractionChars]⟩
  | some exponent =>
    obtain ⟨down, digits⟩ := exponent
    cases down with
    | false =>
      exact ⟨_, .unsigned digits (Or.inl rfl), by simp [toChars, minusChars, fractionChars]⟩
    | true => exact ⟨_, .minus digits (Or.inl rfl), by simp [toChars, minusChars, fractionChars]⟩

theorem splitFraction_fractionChars {digits : List Nat} (h : AreDigits digits) {rest : List Char}
    (hrest : ∀ c ∈ rest.head?, c.isDigit = false ∧ c ≠ '.') :
    splitFraction (fractionChars digits ++ rest) = some (digits, rest) := by
  cases digits with
  | nil =>
    show splitFraction rest = some ([], rest)
    unfold splitFraction
    split
    · exact absurd rfl (hrest '.' rfl).2
    · rfl
  | cons d digits =>
    have hsplit := splitDigits_digitChars h fun c hc => (hrest c hc).1
    have hchars : fractionChars (d :: digits) ++ rest =
        '.' :: (digitChars (d :: digits) ++ rest) := rfl
    rw [hchars, splitFraction, hsplit]

theorem splitExponent_of_spells {exponent : Option (Bool × List Nat)} {tail : List Char}
    (hspell : SpellsExponent exponent tail)
    (h : ∀ negative digits, exponent = some (negative, digits) → digits ≠ [] ∧ AreDigits digits) :
    splitExponent tail = some (exponent, []) := by
  have hafter : ∀ {mark : Char} {signed : List Char} {negative : Bool} {digits : List Nat},
      mark = 'e' ∨ mark = 'E' → splitSign signed = (negative, digitChars digits) →
      digits ≠ [] → AreDigits digits →
      splitExponent (mark :: signed) = some (some (negative, digits), []) := by
    intro mark signed negative digits hmark hsign hne hdigits
    have hend : ∀ c ∈ ([] : List Char).head?, c.isDigit = false := nofun
    have hsplit := splitDigits_digitChars hdigits hend
    rw [List.append_nil] at hsplit
    obtain ⟨d, digits, rfl⟩ := List.exists_cons_of_ne_nil hne
    rw [splitExponent, if_pos hmark, hsign]
    simp only [hsplit]
  cases hspell with
  | absent => rfl
  | unsigned digits hmark =>
    obtain ⟨hne, hdigits⟩ := h false digits rfl
    obtain ⟨c, cs, hcs, hc⟩ := exists_digitChars hdigits hne
    exact hafter hmark (hcs ▸ splitSign_minusChars false hc cs) hne hdigits
  | plus digits hmark => exact hafter hmark rfl (h false digits rfl).1 (h false digits rfl).2
  | minus digits hmark => exact hafter hmark rfl (h true digits rfl).1 (h true digits rfl).2

-- no part of a literal begins like the part before it goes on
theorem SpellsExponent.head? {exponent : Option (Bool × List Nat)} {tail : List Char}
    (h : SpellsExponent exponent tail) : ∀ c ∈ tail.head?, c.isDigit = false ∧ c ≠ '.' := by
  have hletter : ∀ mark : Char, mark = 'e' ∨ mark = 'E' → mark.isDigit = false ∧ mark ≠ '.' := by
    rintro mark (rfl | rfl)
    · decide
    · decide
  intro c hc
  cases h with
  | absent => exact absurd hc (by simp)
  | unsigned digits hmark | plus digits hmark | minus digits hmark =>
    exact Option.some.inj hc ▸ hletter _ hmark

theorem head?_fractionChars_append (digits : List Nat) {tail : List Char}
    (h : ∀ c ∈ tail.head?, c.isDigit = false ∧ c ≠ '.') :
    ∀ c ∈ (fractionChars digits ++ tail).head?, c.isDigit = false := by
  intro c hc
  cases digits with
  | nil => exact (h c hc).1
  | cons d digits =>
    obtain rfl : '.' = c := Option.some.inj hc
    decide

/-! ## What was split off -/

theorem digitValue_lt {c : Char} (h : c.isDigit = true) : digitValue c < 10 := by
  have hrange := Char.isDigit_iff_toNat.mp h
  have hnine : '9'.toNat = 57 := by decide
  rw [digitValue]
  omega

theorem digitChar_digitValue {c : Char} (h : c.isDigit = true) :
    (digitValue c).digitChar = c := by
  have hrange := Char.isDigit_iff_toNat.mp h
  have hzero : '0'.toNat = 48 := by decide
  have hback := Nat.toNat_digitChar_of_lt_ten (digitValue_lt h)
  refine Char.toNat_inj.mp ?_
  rw [hback, digitValue]
  omega

theorem eq_splitMinus (cs : List Char) :
    cs = minusChars (splitMinus cs).1 ++ (splitMinus cs).2 := by
  unfold splitMinus
  split
  · rfl
  · rfl

theorem eq_splitDigits (cs : List Char) :
    cs = digitChars (splitDigits cs).1 ++ (splitDigits cs).2 := by
  have hchars : digitChars ((cs.takeWhile Char.isDigit).map digitValue) =
      cs.takeWhile Char.isDigit := by
    rw [digitChars, List.map_map]
    calc (cs.takeWhile Char.isDigit).map (Nat.digitChar ∘ digitValue)
        = (cs.takeWhile Char.isDigit).map id :=
          List.map_congr_left fun c hc =>
            digitChar_digitValue (List.all_eq_true.mp List.all_takeWhile c hc)
      _ = cs.takeWhile Char.isDigit := List.map_id _
  rw [splitDigits, hchars, List.takeWhile_append_dropWhile]

theorem areDigits_splitDigits (cs : List Char) : AreDigits (splitDigits cs).1 := by
  intro d hd
  obtain ⟨c, hc, rfl⟩ := List.mem_map.mp hd
  exact digitValue_lt (List.all_eq_true.mp List.all_takeWhile c hc)

theorem spells_of_splitFraction {cs rest : List Char} {digits : List Nat}
    (h : splitFraction cs = some (digits, rest)) :
    AreDigits digits ∧ cs = fractionChars digits ++ rest := by
  unfold splitFraction at h
  split at h
  · rename_i cs
    have heq := eq_splitDigits cs
    have hdigits := areDigits_splitDigits cs
    generalize splitDigits cs = split at h heq hdigits
    obtain ⟨digits', rest'⟩ := split
    cases digits' with
    | nil => exact absurd h nofun
    | cons d digits' =>
      obtain ⟨rfl, rfl⟩ := Prod.mk.inj (Option.some.inj h)
      exact ⟨hdigits, congrArg ('.' :: ·) heq⟩
  · obtain ⟨rfl, rfl⟩ := Prod.mk.inj (Option.some.inj h)
    exact ⟨nofun, rfl⟩

theorem eq_splitSign (cs : List Char) :
    cs = minusChars (splitSign cs).1 ++ (splitSign cs).2 ∨
      (splitSign cs).1 = false ∧ cs = '+' :: (splitSign cs).2 := by
  unfold splitSign
  split
  · exact Or.inl rfl
  · exact Or.inr ⟨rfl, rfl⟩
  · exact Or.inl rfl

theorem spells_of_splitExponent {cs rest : List Char} {exponent : Option (Bool × List Nat)}
    (h : splitExponent cs = some (exponent, rest)) :
    (∀ negative digits, exponent = some (negative, digits) → digits ≠ [] ∧ AreDigits digits) ∧
      ∃ tail, SpellsExponent exponent tail ∧ cs = tail ++ rest := by
  cases cs with
  | nil =>
    obtain ⟨rfl, rfl⟩ := Prod.mk.inj (Option.some.inj h)
    exact ⟨nofun, [], .absent, rfl⟩
  | cons mark cs =>
    rw [splitExponent] at h
    by_cases hmark : mark = 'e' ∨ mark = 'E'
    · rw [if_pos hmark] at h
      have hsign := eq_splitSign cs
      generalize splitSign cs = signed at h hsign
      obtain ⟨negative, cs'⟩ := signed
      have heq := eq_splitDigits cs'
      have hdigits := areDigits_splitDigits cs'
      simp only at h hsign
      generalize splitDigits cs' = split at h heq hdigits
      obtain ⟨digits, rest'⟩ := split
      cases digits with
      | nil => exact absurd h nofun
      | cons d digits =>
        obtain ⟨rfl, rfl⟩ := Prod.mk.inj (Option.some.inj h)
        refine ⟨?_, ?_⟩
        · rintro _ _ ⟨⟩
          exact ⟨nofun, hdigits⟩
        · rcases hsign with hsign | ⟨rfl, hsign⟩
          · cases negative with
            | true => exact ⟨_, .minus _ hmark, by rw [hsign, heq]; rfl⟩
            | false => exact ⟨_, .unsigned _ hmark, by rw [hsign, heq]; rfl⟩
          · exact ⟨_, .plus _ hmark, by rw [hsign, heq]; rfl⟩
    · rw [if_neg hmark] at h
      obtain ⟨rfl, rfl⟩ := Prod.mk.inj (Option.some.inj h)
      exact ⟨nofun, [], .absent, rfl⟩

/-! ## Whole literals -/

theorem WellFormed.whole_ne_nil {n : NumberLiteral} (h : n.WellFormed) : n.whole ≠ [] := by
  intro hnil
  have hwhole := h.whole
  rw [hnil] at hwhole
  exact absurd hwhole (by decide)

/-- A well-formed literal is read from any of its spellings. -/
theorem ofChars?_of_spells {n : NumberLiteral} {cs : List Char} (h : n.WellFormed)
    (hcs : Spells n cs) : ofChars? cs = some n := by
  obtain ⟨tail, htail, rfl⟩ := hcs
  have hminus : splitMinus (minusChars n.negative ++
      (digitChars n.whole ++ (fractionChars n.fraction ++ tail))) =
        (n.negative, digitChars n.whole ++ (fractionChars n.fraction ++ tail)) := by
    obtain ⟨c, cs, hcs, hc⟩ := exists_digitChars h.wholeDigits h.whole_ne_nil
    rw [hcs]
    exact splitMinus_minusChars n.negative hc _
  have hdigits := splitDigits_digitChars h.wholeDigits
    (head?_fractionChars_append n.fraction htail.head?)
  have hfraction := splitFraction_fractionChars h.fractionDigits htail.head?
  have hexponent := splitExponent_of_spells htail h.exponentDigits
  simp only [ofChars?, hminus, hdigits, h.whole, Bool.not_true, Bool.false_eq_true, if_false,
    Option.bind_eq_bind, hfraction, Option.bind_some, hexponent]
  rfl

/-- What is read as a literal is a spelling of it. -/
theorem spells_of_ofChars? {n : NumberLiteral} {cs : List Char} (h : ofChars? cs = some n) :
    n.WellFormed ∧ Spells n cs := by
  have hminus := eq_splitMinus cs
  rw [ofChars?] at h
  generalize splitMinus cs = signed at h hminus
  obtain ⟨negative, cs₁⟩ := signed
  have hwhole := eq_splitDigits cs₁
  have hwholeDigits := areDigits_splitDigits cs₁
  simp only at h hminus
  generalize splitDigits cs₁ = split at h hwhole hwholeDigits
  obtain ⟨whole, cs₂⟩ := split
  simp only at h hwhole hwholeDigits
  cases hformed : wellFormedWhole whole with
  | false =>
    rw [hformed] at h
    exact absurd h nofun
  | true =>
    rw [hformed] at h
    obtain ⟨⟨fraction, cs₃⟩, hfraction, h⟩ := Option.bind_eq_some_iff.mp h
    obtain ⟨⟨exponent, cs₄⟩, hexponent, h⟩ := Option.bind_eq_some_iff.mp h
    obtain ⟨hend, hn⟩ := Option.ite_none_right_eq_some.mp h
    obtain rfl := Option.some.inj hn
    obtain rfl := List.isEmpty_iff.mp hend
    obtain ⟨hfractionDigits, hfractionChars⟩ := spells_of_splitFraction hfraction
    obtain ⟨hexponentDigits, tail, htail, htailChars⟩ := spells_of_splitExponent hexponent
    obtain rfl : cs₃ = tail := htailChars.trans (List.append_nil tail)
    rw [hminus, hwhole, hfractionChars]
    exact ⟨⟨hformed, hwholeDigits, hfractionDigits, hexponentDigits⟩, cs₃, htail, rfl⟩

/-- The texts that are read as a literal. -/
theorem ofChars?_eq_some_iff {n : NumberLiteral} {cs : List Char} :
    ofChars? cs = some n ↔ n.WellFormed ∧ Spells n cs :=
  ⟨spells_of_ofChars?, fun h => ofChars?_of_spells h.1 h.2⟩

theorem isNumberChar_of_mem_digitChars {digits : List Nat} (h : AreDigits digits) :
    ∀ c ∈ digitChars digits, Json.Scan.isNumberChar c = true := by
  intro c hc
  simp [Json.Scan.isNumberChar, isDigit_of_mem_digitChars h c hc]

theorem isNumberChar_of_mem_fractionChars {digits : List Nat} (h : AreDigits digits) :
    ∀ c ∈ fractionChars digits, Json.Scan.isNumberChar c = true := by
  intro c hc
  cases digits with
  | nil => exact absurd hc List.not_mem_nil
  | cons d digits =>
    rcases List.mem_cons.mp hc with rfl | hc
    · decide
    · exact isNumberChar_of_mem_digitChars h c hc

theorem isNumberChar_of_mem_exponent {exponent : Option (Bool × List Nat)} {tail : List Char}
    (hspell : SpellsExponent exponent tail)
    (h : ∀ negative digits, exponent = some (negative, digits) → digits ≠ [] ∧ AreDigits digits) :
    ∀ c ∈ tail, Json.Scan.isNumberChar c = true := by
  have hletter : ∀ mark : Char, mark = 'e' ∨ mark = 'E' → Json.Scan.isNumberChar mark = true := by
    rintro mark (rfl | rfl)
    · decide
    · decide
  intro c hc
  cases hspell with
  | absent => exact absurd hc List.not_mem_nil
  | unsigned digits hmark =>
    rcases List.mem_cons.mp hc with rfl | hc
    · exact hletter _ hmark
    · exact isNumberChar_of_mem_digitChars (h _ _ rfl).2 c hc
  | plus digits hmark | minus digits hmark =>
    rcases List.mem_cons.mp hc with rfl | hc
    · exact hletter _ hmark
    · rcases List.mem_cons.mp hc with rfl | hc
      · decide
      · exact isNumberChar_of_mem_digitChars (h _ _ rfl).2 c hc

/-- The text of a literal has only characters that a number may have. -/
theorem isNumberChar_of_spells {n : NumberLiteral} {cs : List Char} (h : n.WellFormed)
    (hcs : Spells n cs) : ∀ c ∈ cs, Json.Scan.isNumberChar c = true := by
  obtain ⟨tail, htail, rfl⟩ := hcs
  intro c hc
  rw [List.mem_append, List.mem_append, List.mem_append] at hc
  rcases hc with hc | hc | hc | hc
  · obtain rfl := eq_minus_of_mem hc
    decide
  · exact isNumberChar_of_mem_digitChars h.wholeDigits c hc
  · exact isNumberChar_of_mem_fractionChars h.fractionDigits c hc
  · exact isNumberChar_of_mem_exponent htail h.exponentDigits c hc

/-- The text of a literal begins with a digit or a minus sign. -/
theorem exists_of_spells {n : NumberLiteral} {cs : List Char} (h : n.WellFormed)
    (hcs : Spells n cs) : ∃ c rest, cs = c :: rest ∧ (c.isDigit = true ∨ c = '-') := by
  obtain ⟨tail, -, rfl⟩ := hcs
  cases n.negative with
  | true => exact ⟨_, _, rfl, Or.inr rfl⟩
  | false =>
    obtain ⟨c, cs, hcs, hc⟩ := exists_digitChars h.wholeDigits h.whole_ne_nil
    rw [hcs]
    exact ⟨_, _, rfl, Or.inl hc⟩

/-! ## Natural numbers -/

/-- The digits of a positive number begin with one that is not zero. -/
theorem exists_whole_ofNat {n : Nat} (h : 0 < n) :
    ∃ d digits, (ofNat n).whole = d :: digits ∧ d ≠ 0 := by
  induction n using Nat.strongRecOn with
  | ind n ih =>
    by_cases hn : n < 10
    · have hdigits : (ofNat n).whole = [n] := by
        rw [ofNat, Nat.toDigits_of_lt_base hn]
        exact congrArg (fun d => [d]) (Nat.toNat_digitChar_sub_48_of_lt_ten hn)
      exact ⟨n, [], hdigits, by omega⟩
    · obtain ⟨d, digits, hdigits, hd⟩ := ih (n / 10) (by omega) (by omega)
      have hsplit : (ofNat n).whole =
          (ofNat (n / 10)).whole ++ [digitValue (n % 10).digitChar] := by
        rw [ofNat, Nat.toDigits_of_base_le (by decide) (by omega), List.map_append]
        rfl
      exact ⟨d, digits ++ [_], by rw [hsplit, hdigits, List.cons_append], hd⟩

theorem wellFormed_ofNat (n : Nat) : (ofNat n).WellFormed where
  whole := by
    by_cases hn : n = 0
    · rw [hn]
      rfl
    · obtain ⟨d, digits, hdigits, hd⟩ := exists_whole_ofNat (Nat.pos_of_ne_zero hn)
      rw [hdigits]
      unfold wellFormedWhole
      split
      · rename_i heq
        exact absurd heq (by simp)
      · rename_i heq
        exact absurd (List.cons.inj heq).1 hd
      · rfl
  wholeDigits := by
    intro d hd
    obtain ⟨c, hc, rfl⟩ := List.mem_map.mp hd
    exact digitValue_lt (Nat.isDigit_of_mem_toDigits (by decide) (by decide) hc)
  fractionDigits := by
    intro d hd
    exact absurd hd (by simp [ofNat])
  exponentDigits := by
    intro negative digits h
    exact absurd h (by simp [ofNat])

end EdgeClient.NumberLiteral
