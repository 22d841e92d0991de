import EdgeClient.Scram.Attributes
import Mathlib.Algebra.Group.Nat.Defs

/-!
# Reading the strings of an exchange

A string of an exchange is a list of attributes with commas between them. Here are the laws by
which one side reads what the other has put together: the parts of a joined string are the joined
attributes as long as no value has a comma in it, an escaped user name has none and is read back,
and so is a number in decimal. `splitAtLast` is the cut that takes a proof off its string.
-/

namespace EdgeClient.Scram

/-- An attribute: a letter, an equals sign and a value. -/
def entry (letter : Char) (value : Chars) : Chars := letter :: '=' :: value

/-! ## Parts and values -/

theorem valueOf_entry (letter : Char) (value : Chars) :
    valueOf letter (entry letter value) = some value := by
  rw [entry, valueOf, if_pos rfl]

theorem valueOf_entry_of_ne {letter other : Char} (h : other ≠ letter) (value : Chars) :
    valueOf letter (entry other value) = none := by
  rw [entry, valueOf, if_neg h]

theorem valueOf_eq_some {letter : Char} {part value : Chars} (h : valueOf letter part = some value) :
    part = entry letter value := by
  unfold valueOf at h
  split at h
  · rename_i c rest
    split at h
    · rename_i hc
      rw [entry, hc, Option.some.inj h]
    · exact absurd h (by simp)
  · exact absurd h (by simp)

theorem parts_of_notMem {text : Chars} (h : ',' ∉ text) : parts text = [text] :=
  List.splitOn_eq_singleton h

/-- A first part without a comma comes off the front. -/
theorem parts_cons {first : Chars} (h : ',' ∉ first) (rest : Chars) :
    parts (first ++ ',' :: rest) = first :: parts rest :=
  List.splitOn_append_cons_self_of_not_mem h rest

/-- The characters of a part are characters of the string, in the same order. -/
theorem sublist_of_mem_parts {text part : Chars} (h : part ∈ parts text) :
    List.Sublist part text := by
  induction text generalizing part with
  | nil =>
    rw [parts, List.splitOn_nil, List.mem_singleton] at h
    obtain rfl : part = [] := h
    exact List.Sublist.refl []
  | cons c rest ih =>
    rw [parts, List.splitOn_cons_eq_if_modifyHead] at h
    split at h
    · rcases List.mem_cons.mp h with rfl | h
      · exact List.nil_sublist _
      · exact (ih h).cons c
    · rcases hp : List.splitOn ',' rest with _ | ⟨first, others⟩
      · exact absurd hp (List.splitOn_ne_nil ',' rest)
      · rw [hp, List.modifyHead_cons] at h
        rcases List.mem_cons.mp h with rfl | h
        · have hf : List.Sublist first rest := ih (by rw [parts, hp]; simp)
          exact hf.cons_cons c
        · have hr : List.Sublist part rest := ih (by rw [parts, hp]; exact List.mem_cons_of_mem _ h)
          exact hr.cons c

/-! ## Escaped names -/

theorem comma_notMem_escape (name : Chars) : ',' ∉ escape name := by
  fun_induction escape name with
  | case1 => simp
  | case2 rest ih => simp [ih]
  | case3 rest ih => simp [ih]
  | case4 c rest _ hc ih =>
    have hne : ',' ≠ c := fun he => hc he.symm
    simp [hne, ih]

theorem unescape_of_ne {c : Char} (h : c ≠ '=') (rest : Chars) :
    unescape (c :: rest) = c :: unescape rest := by
  rw [unescape.eq_def]
  split
  · rename_i heq
    exact absurd (List.cons.inj heq).1 h
  · rename_i heq
    exact absurd (List.cons.inj heq).1 h
  · rename_i heq
    obtain ⟨rfl, rfl⟩ := List.cons.inj heq
    rfl
  · rename_i heq
    exact absurd heq (by simp)

theorem unescape_escape (name : Chars) : unescape (escape name) = name := by
  fun_induction escape name with
  | case1 => rfl
  | case2 rest ih => rw [unescape, ih]
  | case3 rest ih => rw [unescape, ih]
  | case4 c rest he hc ih =>
    have hne : c ≠ '=' := fun h => he h
    rw [unescape_of_ne hne, ih]

/-! ## Numbers -/

/-- A number in decimal. -/
def decimal (n : Nat) : Chars := Nat.toDigits 10 n

theorem isDigit_of_mem_decimal {n : Nat} {c : Char} (h : c ∈ decimal n) : c.isDigit :=
  Nat.isDigit_of_mem_toDigits (by decide) (by decide) h

theorem comma_notMem_decimal (n : Nat) : ',' ∉ decimal n := fun h =>
  absurd (isDigit_of_mem_decimal h) (by decide)

/-- Digits are read as the number that they add to the one before them. -/
theorem digits?_eq_ofDigitChars {cs : Chars} (h : ∀ c ∈ cs, c.isDigit) (n : Nat) :
    digits? cs n = some (Nat.ofDigitChars 10 cs n) := by
  induction cs generalizing n with
  | nil => rfl
  | cons c rest ih =>
    have hc : c.isDigit := h c List.mem_cons_self
    have hr : ∀ c ∈ rest, c.isDigit := fun c hc => h c (List.mem_cons_of_mem _ hc)
    rw [digits?, if_pos hc, ih hr, Nat.ofDigitChars, Nat.ofDigitChars, List.foldl_cons]
    rfl

theorem digits?_eq_some_iff {cs : Chars} {n m : Nat} :
    digits? cs n = some m ↔ (∀ c ∈ cs, c.isDigit) ∧ m = Nat.ofDigitChars 10 cs n := by
  constructor
  · intro h
    have hdigits : ∀ c ∈ cs, c.isDigit := by
      induction cs generalizing n with
      | nil => simp
      | cons c rest ih =>
        rw [digits?] at h
        split at h
        · rename_i hc
          exact List.forall_mem_cons.mpr ⟨hc, ih h⟩
        · exact absurd h (by simp)
    rw [digits?_eq_ofDigitChars hdigits] at h
    exact ⟨hdigits, (Option.some.inj h).symm⟩
  · rintro ⟨hdigits, rfl⟩
    exact digits?_eq_ofDigitChars hdigits n

/-- Whether a text is a number of 32 bits in decimal. Zeros may stand in front of it, and a plus
sign in front of these. -/
def Denotes (value : Chars) (n : Nat) : Prop :=
  ∃ digits, digits ≠ [] ∧ (value = digits ∨ value = '+' :: digits) ∧
    (∀ c ∈ digits, c.isDigit) ∧ n = Nat.ofDigitChars 10 digits 0 ∧ n < 2 ^ 32

theorem digits?_filter_eq_some_iff {digits : Chars} {n : Nat} :
    (digits? digits 0).filter (· < 0x100000000) = some n ↔
      (∀ c ∈ digits, c.isDigit) ∧ n = Nat.ofDigitChars 10 digits 0 ∧ n < 2 ^ 32 := by
  rw [Option.filter_eq_some_iff, digits?_eq_some_iff, decide_eq_true_iff, and_assoc]
  exact Iff.rfl

theorem number?_of_ne_plus {c : Char} (h : c ≠ '+') (rest : Chars) :
    number? (c :: rest) = (digits? (c :: rest) 0).filter (· < 0x100000000) := by
  unfold number?
  split
  · rename_i he
    exact absurd (List.cons.inj he).1 h
  · rfl

theorem number?_eq_some_iff {value : Chars} {n : Nat} :
    number? value = some n ↔ Denotes value n := by
  constructor
  · intro h
    rcases value with _ | ⟨c, rest⟩
    · exact absurd h (by simp [number?])
    · by_cases hplus : c = '+'
      · subst hplus
        rcases rest with _ | ⟨d, rest⟩
        · exact absurd h (by simp [number?])
        · exact ⟨d :: rest, by simp, Or.inr rfl, digits?_filter_eq_some_iff.mp h⟩
      · rw [number?_of_ne_plus hplus] at h
        exact ⟨c :: rest, by simp, Or.inl rfl, digits?_filter_eq_some_iff.mp h⟩
  · rintro ⟨digits, hne, hvalue, hn⟩
    obtain ⟨d, rest, rfl⟩ := List.exists_cons_of_ne_nil hne
    rcases hvalue with rfl | rfl
    · have hplus : d ≠ '+' := fun he => absurd (hn.1 d List.mem_cons_self) (by rw [he]; decide)
      rw [number?_of_ne_plus hplus]
      exact digits?_filter_eq_some_iff.mpr hn
    · exact digits?_filter_eq_some_iff.mpr hn

theorem number?_eq_none_iff {value : Chars} :
    number? value = none ↔ ∀ n, ¬ Denotes value n := by
  rw [Option.eq_none_iff_forall_ne_some]
  exact forall_congr' fun n => not_congr number?_eq_some_iff

theorem number?_decimal {n : Nat} (h : n < 2 ^ 32) : number? (decimal n) = some n :=
  number?_eq_some_iff.mpr ⟨decimal n, Nat.toDigits_ne_nil, Or.inl rfl,
    fun _ hc => isDigit_of_mem_decimal hc, Nat.ofDigitChars_ten_toDigits.symm, h⟩

/-! ## Cutting off the proof -/

/-- What stands before and behind the last place at which `mark` occurs in a string. -/
def splitAtLast (mark : Chars) : Chars → Option (Chars × Chars)
  | [] => none
  | c :: rest =>
    match splitAtLast mark rest with
    | some (front, back) => some (c :: front, back)
    | none => if mark.isPrefixOf (c :: rest) then some ([], (c :: rest).drop mark.length) else none

/-- A mark does not occur in a string that lacks its first character. -/
theorem splitAtLast_of_notMem {c : Char} {text : Chars} (h : c ∉ text) (mark : Chars) :
    splitAtLast (c :: mark) text = none := by
  induction text with
  | nil => rfl
  | cons d rest ih =>
    have hd : c ≠ d := fun he => h (he ▸ List.mem_cons_self)
    have hp : (c :: mark).isPrefixOf (d :: rest) = false := by
      rw [List.isPrefixOf_cons_cons, beq_eq_false_iff_ne.mpr hd, Bool.false_and]
    rw [splitAtLast, ih fun hr => h (List.mem_cons_of_mem _ hr), hp]
    rfl

/-- A string is cut at a mark whose first character does not occur again behind it. -/
theorem splitAtLast_append {c : Char} {mark back : Chars} (hm : c ∉ mark) (hb : c ∉ back)
    (front : Chars) : splitAtLast (c :: mark) (front ++ (c :: mark) ++ back) = some (front, back) := by
  induction front with
  | nil =>
    have hn : splitAtLast (c :: mark) (mark ++ back) = none :=
      splitAtLast_of_notMem (by simp [hm, hb]) mark
    have hp : (c :: mark).isPrefixOf (c :: (mark ++ back)) = true := by simp
    rw [List.nil_append, List.cons_append, splitAtLast, hn, hp]
    simp
  | cons d front ih => rw [List.cons_append, List.cons_append, splitAtLast, ih]

end EdgeClient.Scram
