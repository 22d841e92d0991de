import EdgeClient.Json.Document
import EdgeClient.Proofs.Json.Literals

/-!
# The tokens of a text

`Tokenises` is the lexical grammar: white space may stand anywhere between tokens, a text may spell
each of its characters in several ways, and numbers and words go on as far as they can. The scanner
finds the tokens of this grammar in a text, or none if there are none (`run_eq_some_iff`).

The scanner is a machine that takes in one character at a time, so each kind of token has a lemma
for what is left of the text behind it. For numbers and words, which are read alike, it is an
equation; a text is followed character by character.
-/

namespace EdgeClient.Json

/-! ## The grammar -/

/-- A code of four digits, and its value. -/
inductive IsCode : List Char → Nat → Prop where
  | digits {c₁ c₂ c₃ c₄ : Char} {a b c d : Nat} : Scan.hexValue? c₁ = some a →
      Scan.hexValue? c₂ = some b → Scan.hexValue? c₃ = some c → Scan.hexValue? c₄ = some d →
      IsCode [c₁, c₂, c₃, c₄] (16 * (16 * (16 * a + b) + c) + d)

/-- How a character may be spelled inside quotes. A code stands for itself unless it is a surrogate;
two surrogates stand for one character. -/
inductive SpellsChar : Char → List Char → Prop where
  | plain {c : Char} : c ≠ '"' → c ≠ '\\' → 0x20 ≤ c.toNat → SpellsChar c [c]
  | short {letter c : Char} : Scan.shortEscape? letter = some c → SpellsChar c ['\\', letter]
  | code {digits : List Char} {value : Nat} : IsCode digits value →
      value < 0xd800 ∨ 0xdfff < value → SpellsChar (Char.ofNat value) ('\\' :: 'u' :: digits)
  | pair {first second : List Char} {high low : Nat} : IsCode first high → IsCode second low →
      0xd800 ≤ high → high ≤ 0xdbff → 0xdc00 ≤ low → low ≤ 0xdfff →
      SpellsChar (Char.ofNat (0x10000 + (high - 0xd800) * 1024 + (low - 0xdc00)))
        ('\\' :: 'u' :: (first ++ '\\' :: 'u' :: second))

/-- How characters may be spelled inside quotes. -/
inductive SpellsChars : List Char → List Char → Prop where
  | nil : SpellsChars [] []
  | cons {c : Char} {cs front body : List Char} : SpellsChar c front → SpellsChars cs body →
      SpellsChars (c :: cs) (front ++ body)

/-- The tokens that are one sign. -/
inductive IsSign : Char → Token → Prop where
  | openArray : IsSign '[' .openArray
  | closeArray : IsSign ']' .closeArray
  | openObject : IsSign '\x7b' .openObject
  | closeObject : IsSign '\x7d' .closeObject
  | colon : IsSign ':' .colon
  | comma : IsSign ',' .comma

/-- The words, and the values that they stand for. -/
inductive IsWord : List Char → Json → Prop where
  | null : IsWord "null".toList .null
  | true : IsWord "true".toList (.bool true)
  | false : IsWord "false".toList (.bool false)

/-- Whether a text goes on with something else than what a test accepts. -/
def StopsAt (p : Char → Bool) (rest : List Char) : Prop := ∀ c ∈ rest.head?, p c = false

/-- The tokens that a text consists of. -/
inductive Tokenises : List Token → List Char → Prop where
  | nil : Tokenises [] []
  | space {c : Char} {tokens : List Token} {rest : List Char} : Scan.isSpace c = true →
      Tokenises tokens rest → Tokenises tokens (c :: rest)
  | sign {c : Char} {token : Token} {tokens : List Token} {rest : List Char} : IsSign c token →
      Tokenises tokens rest → Tokenises (token :: tokens) (c :: rest)
  | text {s : String} {body : List Char} {tokens : List Token} {rest : List Char} :
      SpellsChars s.toList body → Tokenises tokens rest →
      Tokenises (.text s :: tokens) ('"' :: (body ++ '"' :: rest))
  | number {n : NumberLiteral} {cs : List Char} {tokens : List Token} {rest : List Char} :
      n.WellFormed → n.Spells cs → n.magnitude?.isSome = true →
      StopsAt Scan.isNumberChar rest → Tokenises tokens rest →
      Tokenises (.scalar (.number n) :: tokens) (cs ++ rest)
  | word {word : List Char} {value : Json} {tokens : List Token} {rest : List Char} :
      IsWord word value → StopsAt Char.isAlpha rest → Tokenises tokens rest →
      Tokenises (.scalar value :: tokens) (word ++ rest)

/-! ## The scanner on the rest of a text -/

namespace Scan

/-- The tokens that the rest of a text completes. -/
def run : Scan → List Char → Option (List Token)
  | scan, [] => scan.finish
  | scan, c :: rest =>
    (scan.feed c).bind fun (tokens, scan') => (run scan' rest).map (tokens ++ ·)

variable {scan scan' : Scan} {c : Char} {rest : List Char} {tokens : List Token}

theorem run_cons (h : scan.feed c = some (tokens, scan')) (rest : List Char) :
    scan.run (c :: rest) = (scan'.run rest).map (tokens ++ ·) := by
  rw [run, h]
  rfl

theorem run_of_feed (h : scan.feed c = some ([], scan')) (rest : List Char) :
    scan.run (c :: rest) = scan'.run rest := by
  rw [run_cons h]
  exact Option.map_id'

theorem exists_of_run_cons (h : scan.run (c :: rest) = some tokens) :
    ∃ front scan' back, scan.feed c = some (front, scan') ∧ scan'.run rest = some back ∧
      tokens = front ++ back := by
  obtain ⟨⟨front, scan'⟩, hfeed, h⟩ := Option.bind_eq_some_iff.mp h
  obtain ⟨back, hrun, htokens⟩ := Option.map_eq_some_iff.mp h
  exact ⟨front, scan', back, hfeed, hrun, htokens.symm⟩

/-! ### Numbers and words -/

theorem run_startAfter {token : Token} (h : scan.feed c = startAfter? (some token) c) :
    scan.run (c :: rest) = (run .blank (c :: rest)).map (token :: ·) := by
  have hblank : feed .blank c = start? c := rfl
  rw [run, run, h, hblank]
  cases hstart : start? c with
  | none =>
    have hafter : startAfter? (some token) c = none := by
      rw [startAfter?, hstart]
      rfl
    rw [hafter]
    rfl
  | some started =>
    have hafter : startAfter? (some token) c = some (token :: started.1, started.2) := by
      rw [startAfter?, hstart]
      rfl
    rw [hafter, Option.bind_some, Option.bind_some, Option.map_map]
    rfl

/-- A token that goes on while a test accepts the next character. -/
theorem run_gather {f : List Char → Scan} {p : Char → Bool} {token? : List Char → Option Token}
    (hfeed : ∀ seen c, (f seen).feed c =
      if p c then some ([], f (c :: seen)) else startAfter? (token? seen) c)
    (hfinish : ∀ seen, (f seen).finish = (token? seen).map ([·])) (seen cs : List Char) :
    (f seen).run cs = (token? ((cs.takeWhile p).reverse ++ seen)).bind fun token =>
      (run .blank (cs.dropWhile p)).map (token :: ·) := by
  induction cs generalizing seen with
  | nil =>
    rw [run, hfinish, List.takeWhile_nil, List.dropWhile_nil, List.reverse_nil, List.nil_append]
    cases token? seen with
    | none => rfl
    | some token => rfl
  | cons c cs ih =>
    by_cases hp : p c = true
    · have hgather : (f seen).feed c = some ([], f (c :: seen)) := by rw [hfeed, if_pos hp]
      rw [run_of_feed hgather, ih, List.takeWhile_cons_of_pos hp, List.dropWhile_cons_of_pos hp,
        List.reverse_cons, List.append_assoc]
      rfl
    · have hafter : (f seen).feed c = startAfter? (token? seen) c := by rw [hfeed, if_neg hp]
      rw [List.takeWhile_cons_of_neg hp, List.dropWhile_cons_of_neg hp]
      cases htoken : token? seen with
      | none =>
        have hnone : (f seen).feed c = none := by
          rw [hafter, htoken]
          rfl
        rw [run, hnone, List.reverse_nil, List.nil_append, htoken]
        rfl
      | some token =>
        rw [htoken] at hafter
        rw [run_startAfter hafter, List.reverse_nil, List.nil_append, htoken]
        rfl

theorem run_number (seen cs : List Char) :
    run (.number seen) cs =
      (numberToken? ((cs.takeWhile isNumberChar).reverse ++ seen)).bind fun token =>
        (run .blank (cs.dropWhile isNumberChar)).map (token :: ·) :=
  run_gather (fun _ _ => rfl) (fun _ => rfl) seen cs

theorem run_word (seen cs : List Char) :
    run (.word seen) cs =
      (wordToken? ((cs.takeWhile Char.isAlpha).reverse ++ seen)).bind fun token =>
        (run .blank (cs.dropWhile Char.isAlpha)).map (token :: ·) :=
  run_gather (fun _ _ => rfl) (fun _ => rfl) seen cs

theorem numberToken?_eq_some_iff {seen : List Char} {token : Token} :
    numberToken? seen = some token ↔ ∃ n, n.WellFormed ∧ n.Spells seen.reverse ∧
      n.magnitude?.isSome = true ∧ token = .scalar (.number n) := by
  constructor
  · intro h
    obtain ⟨n, hn, h⟩ := Option.bind_eq_some_iff.mp h
    obtain ⟨x, hx, h⟩ := Option.bind_eq_some_iff.mp h
    obtain ⟨hformed, hspells⟩ := NumberLiteral.ofChars?_eq_some_iff.mp hn
    exact ⟨n, hformed, hspells, by rw [hx]; rfl, (Option.some.inj h).symm⟩
  · rintro ⟨n, hformed, hspells, hsome, rfl⟩
    obtain ⟨x, hx⟩ := Option.isSome_iff_exists.mp hsome
    have hn := NumberLiteral.ofChars?_eq_some_iff.mpr ⟨hformed, hspells⟩
    simp only [numberToken?, hn, hx, Option.bind_eq_bind, Option.bind_some]

theorem wordToken?_eq_some_iff {seen : List Char} {token : Token} :
    wordToken? seen = some token ↔ ∃ value, IsWord seen.reverse value ∧ token = .scalar value := by
  constructor
  · intro h
    simp only [wordToken?] at h
    by_cases htrue : seen.reverse = "true".toList
    · rw [if_pos htrue] at h
      exact ⟨_, htrue ▸ .true, (Option.some.inj h).symm⟩
    rw [if_neg htrue] at h
    by_cases hfalse : seen.reverse = "false".toList
    · rw [if_pos hfalse] at h
      exact ⟨_, hfalse ▸ .false, (Option.some.inj h).symm⟩
    rw [if_neg hfalse] at h
    obtain ⟨hnull, h⟩ := Option.ite_none_right_eq_some.mp h
    exact ⟨_, hnull ▸ .null, (Option.some.inj h).symm⟩
  · rintro ⟨value, hword, rfl⟩
    rw [wordToken?]
    generalize seen.reverse = word at hword
    cases hword with
    | null => rfl
    | true => rfl
    | false => rfl

/-! ### Texts -/

theorem run_digit {seen : List Char} {high : Option Nat} {left value : Nat} {c : Char} {v : Nat}
    (hc : hexValue? c = some v) (hleft : 1 < left) (rest : List Char) :
    run (.code seen high left value) (c :: rest) =
      run (.code seen high (left - 1) (16 * value + v)) rest := by
  refine run_of_feed ?_ rest
  rw [feed, hc]
  exact if_neg (by omega)

theorem run_lastDigit {seen : List Char} {high : Option Nat} {value : Nat} {c : Char} {v : Nat}
    (hc : hexValue? c = some v) (rest : List Char) :
    run (.code seen high 1 value) (c :: rest) =
      (endCode? seen high (16 * value + v)).bind (·.run rest) := by
  have hfeed : feed (.code seen high 1 value) c =
      (endCode? seen high (16 * value + v)).map (([], ·)) := by
    rw [feed, hc]
    show (endCode? seen high (16 * value + v)).bind _ = _
    cases endCode? seen high (16 * value + v) with
    | none => rfl
    | some scan => rfl
  rw [run, hfeed]
  cases endCode? seen high (16 * value + v) with
  | none => rfl
  | some scan => exact Option.map_id'

theorem run_code {digits : List Char} {value : Nat} (h : IsCode digits value) (seen : List Char)
    (high : Option Nat) (rest : List Char) :
    run (.code seen high 4 0) (digits ++ rest) =
      (endCode? seen high value).bind (·.run rest) := by
  obtain ⟨ha, hb, hc, hd⟩ := h
  rw [List.cons_append, run_digit ha (by decide), List.cons_append, run_digit hb (by decide),
    List.cons_append, run_digit hc (by decide), List.cons_append, run_lastDigit hd, Nat.mul_zero,
    Nat.zero_add]
  rfl

theorem exists_digit {seen cs : List Char} {high : Option Nat} {left value : Nat}
    (h : run (.code seen high left value) cs = some tokens) :
    ∃ c v rest, cs = c :: rest ∧ hexValue? c = some v := by
  cases cs with
  | nil => exact absurd h nofun
  | cons c rest =>
    obtain ⟨_, _, _, hfeed, -, -⟩ := exists_of_run_cons h
    obtain ⟨v, hv, -⟩ := Option.bind_eq_some_iff.mp hfeed
    exact ⟨c, v, rest, rfl, hv⟩

theorem exists_code {seen cs : List Char} {high : Option Nat}
    (h : run (.code seen high 4 0) cs = some tokens) :
    ∃ digits value rest, IsCode digits value ∧ cs = digits ++ rest ∧
      (endCode? seen high value).bind (·.run rest) = some tokens := by
  have hrun := h
  obtain ⟨c₁, a, rest, rfl, ha⟩ := exists_digit h
  rw [run_digit ha (by decide)] at h
  obtain ⟨c₂, b, rest, rfl, hb⟩ := exists_digit h
  rw [run_digit hb (by decide)] at h
  obtain ⟨c₃, c, rest, rfl, hc⟩ := exists_digit h
  rw [run_digit hc (by decide)] at h
  obtain ⟨c₄, d, rest, rfl, hd⟩ := exists_digit h
  have hcode : IsCode [c₁, c₂, c₃, c₄] (16 * (16 * (16 * a + b) + c) + d) := .digits ha hb hc hd
  exact ⟨_, _, rest, hcode, rfl, (run_code hcode seen high rest).symm.trans hrun⟩

/-- A character inside quotes is read from any of its spellings. -/
theorem run_of_spellsChar {c : Char} {front : List Char} (h : SpellsChar c front)
    (seen rest : List Char) :
    run (.text seen) (front ++ rest) = run (.text (c :: seen)) rest := by
  have hback : feed (.text seen) '\\' = some ([], .escape seen) := rfl
  have hcode : feed (.escape seen) 'u' = some ([], .code seen none 4 0) := rfl
  cases h with
  | plain hquote hslash hcontrol =>
    refine run_of_feed ?_ rest
    rw [feed, if_neg hquote, if_neg hslash, if_neg (by omega)]
  | @short letter c hletter =>
    have hu : letter ≠ 'u' := by
      rintro rfl
      exact absurd hletter nofun
    have hfeed : feed (.escape seen) letter = some ([], .text (c :: seen)) := by
      rw [feed, if_neg hu, hletter]
      rfl
    rw [List.cons_append, List.cons_append, run_of_feed hback, run_of_feed hfeed]
    rfl
  | code hdigits hvalue =>
    rw [List.cons_append, List.cons_append, run_of_feed hback, run_of_feed hcode,
      run_code hdigits, endCode?, if_neg (by omega), if_neg (by omega), Option.bind_some]
  | @pair first second high low hfirst hsecond hhigh hhigh' hlow hlow' =>
    have hpair : feed (.pair seen high) '\\' = some ([], .pairEscape seen high) := rfl
    have hpairCode : feed (.pairEscape seen high) 'u' =
        some ([], .code seen (some high) 4 0) := rfl
    rw [List.cons_append, List.cons_append, List.append_assoc, List.cons_append, List.cons_append,
      run_of_feed hback, run_of_feed hcode, run_code hfirst, endCode?, if_pos ⟨hhigh, hhigh'⟩,
      Option.bind_some, run_of_feed hpair, run_of_feed hpairCode, run_code hsecond, endCode?,
      if_pos ⟨hlow, hlow'⟩, Option.bind_some]

theorem run_of_spellsChars {cs body : List Char} (h : SpellsChars cs body)
    (seen rest : List Char) :
    run (.text seen) (body ++ rest) = run (.text (cs.reverse ++ seen)) rest := by
  induction h generalizing seen with
  | nil => rfl
  | cons hc _ ih =>
    rw [List.append_assoc, run_of_spellsChar hc, ih, List.reverse_cons, List.append_assoc]
    rfl

theorem exists_of_run_pair {seen cs : List Char} {high : Nat}
    (h : run (.pair seen high) cs = some tokens) :
    ∃ second low rest, IsCode second low ∧ 0xdc00 ≤ low ∧ low ≤ 0xdfff ∧
      cs = '\\' :: 'u' :: (second ++ rest) ∧
      run (.text (Char.ofNat (0x10000 + (high - 0xd800) * 1024 + (low - 0xdc00)) :: seen)) rest =
        some tokens := by
  cases cs with
  | nil => exact absurd h nofun
  | cons c cs =>
    obtain ⟨front, scan', back, hfeed, hrun, rfl⟩ := exists_of_run_cons h
    obtain ⟨rfl, hfeed⟩ := Option.ite_none_right_eq_some.mp hfeed
    obtain ⟨rfl, rfl⟩ := Prod.mk.inj (Option.some.inj hfeed)
    cases cs with
    | nil => exact absurd hrun nofun
    | cons c cs =>
      obtain ⟨front, scan', back, hfeed, hrun, rfl⟩ := exists_of_run_cons hrun
      obtain ⟨rfl, hfeed⟩ := Option.ite_none_right_eq_some.mp hfeed
      obtain ⟨rfl, rfl⟩ := Prod.mk.inj (Option.some.inj hfeed)
      obtain ⟨second, low, rest, hcode, rfl, hend⟩ := exists_code hrun
      obtain ⟨scan, hscan, hrun⟩ := Option.bind_eq_some_iff.mp hend
      obtain ⟨⟨hlow, hlow'⟩, hscan⟩ := Option.ite_none_right_eq_some.mp hscan
      obtain rfl := Option.some.inj hscan
      exact ⟨second, low, rest, hcode, hlow, hlow', rfl, hrun⟩

theorem exists_of_run_escape {seen cs : List Char} (h : run (.escape seen) cs = some tokens) :
    ∃ c body rest, SpellsChar c ('\\' :: body) ∧ cs = body ++ rest ∧
      run (.text (c :: seen)) rest = some tokens := by
  cases cs with
  | nil => exact absurd h nofun
  | cons letter cs =>
    obtain ⟨front, scan', back, hfeed, hrun, rfl⟩ := exists_of_run_cons h
    rw [feed] at hfeed
    by_cases hu : letter = 'u'
    · rw [if_pos hu] at hfeed
      obtain ⟨rfl, rfl⟩ := Prod.mk.inj (Option.some.inj hfeed)
      subst hu
      obtain ⟨digits, value, rest, hcode, rfl, hend⟩ := exists_code hrun
      rw [endCode?] at hend
      by_cases hhigh : 0xd800 ≤ value ∧ value ≤ 0xdbff
      · rw [if_pos hhigh, Option.bind_some] at hend
        obtain ⟨second, low, rest, hsecond, hlow, hlow', rfl, hback⟩ := exists_of_run_pair hend
        have hpair := SpellsChar.pair hcode hsecond hhigh.1 hhigh.2 hlow hlow'
        exact ⟨_, _, rest, hpair, by simp, hback⟩
      · rw [if_neg hhigh] at hend
        by_cases hlow : 0xdc00 ≤ value ∧ value ≤ 0xdfff
        · rw [if_pos hlow] at hend
          exact absurd hend nofun
        · rw [if_neg hlow, Option.bind_some] at hend
          exact ⟨_, _, rest, .code hcode (by omega), rfl, hend⟩
    · rw [if_neg hu] at hfeed
      obtain ⟨c, hletter, hfeed⟩ := Option.map_eq_some_iff.mp hfeed
      obtain ⟨rfl, rfl⟩ := Prod.mk.inj hfeed
      exact ⟨c, [letter], cs, .short hletter, rfl, hrun⟩

/-- Inside quotes a text ends, or goes on with a spelling of a character. -/
theorem exists_of_run_text {seen cs : List Char} (h : run (.text seen) cs = some tokens) :
    (∃ rest back, cs = '"' :: rest ∧ run .blank rest = some back ∧
        tokens = .text (String.ofList seen.reverse) :: back) ∨
      ∃ c first front rest, SpellsChar c (first :: front) ∧ cs = first :: front ++ rest ∧
        run (.text (c :: seen)) rest = some tokens := by
  cases cs with
  | nil => exact absurd h nofun
  | cons c cs =>
    obtain ⟨front, scan', back, hfeed, hrun, rfl⟩ := exists_of_run_cons h
    rw [feed] at hfeed
    by_cases hquote : c = '"'
    · rw [if_pos hquote] at hfeed
      obtain ⟨rfl, rfl⟩ := Prod.mk.inj (Option.some.inj hfeed)
      exact Or.inl ⟨cs, back, by rw [hquote], hrun, rfl⟩
    rw [if_neg hquote] at hfeed
    right
    by_cases hslash : c = '\\'
    · rw [if_pos hslash] at hfeed
      obtain ⟨rfl, rfl⟩ := Prod.mk.inj (Option.some.inj hfeed)
      subst hslash
      obtain ⟨c, body, rest, hc, rfl, hback⟩ := exists_of_run_escape hrun
      exact ⟨c, '\\', body, rest, hc, rfl, hback⟩
    · rw [if_neg hslash] at hfeed
      by_cases hcontrol : c.toNat < 0x20
      · rw [if_pos hcontrol] at hfeed
        exact absurd hfeed nofun
      · rw [if_neg hcontrol] at hfeed
        obtain ⟨rfl, rfl⟩ := Prod.mk.inj (Option.some.inj hfeed)
        exact ⟨c, c, [], cs, .plain hquote hslash (by omega), rfl, hrun⟩

theorem exists_of_run_quoted {seen cs : List Char} (h : run (.text seen) cs = some tokens) :
    ∃ chars body rest back, SpellsChars chars body ∧ cs = body ++ '"' :: rest ∧
      run .blank rest = some back ∧
        tokens = .text (String.ofList (seen.reverse ++ chars)) :: back := by
  induction hlength : cs.length using Nat.strongRecOn generalizing cs seen with
  | ind length ih =>
    rcases exists_of_run_text h with
      ⟨rest, back, rfl, hrun, rfl⟩ | ⟨c, first, front, rest, hc, rfl, hrun⟩
    · exact ⟨[], [], rest, back, .nil, rfl, hrun, by rw [List.append_nil]⟩
    · have hshorter : rest.length < length := by
        rw [← hlength, List.length_append, List.length_cons]
        omega
      obtain ⟨chars, body, rest', back, hchars, rfl, hblank, rfl⟩ := ih _ hshorter hrun rfl
      refine ⟨c :: chars, first :: front ++ body, rest', back, .cons hc hchars, ?_, hblank, ?_⟩
      · rw [List.append_assoc]
      · rw [List.reverse_cons, List.append_assoc]
        rfl

/-! ### Whole texts -/

theorem start?_of_isSign {token : Token} (h : IsSign c token) :
    start? c = some ([token], .blank) := by
  cases h with
  | openArray | closeArray | openObject | closeObject | colon | comma => rfl

/-- What a character may mean where no token is open. -/
inductive Starts : Char → List Token → Scan → Prop where
  | space {c : Char} : isSpace c = true → Starts c [] .blank
  | quote : Starts '"' [] (.text [])
  | number {c : Char} : c.isDigit = true ∨ c = '-' → Starts c [] (.number [c])
  | word {c : Char} : c.isAlpha = true → Starts c [] (.word [c])
  | sign {c : Char} {token : Token} : IsSign c token → Starts c [token] .blank

theorem starts_of_start? (h : start? c = some (tokens, scan)) : Starts c tokens scan := by
  unfold start? at h
  by_cases hspace : isSpace c = true
  · rw [if_pos hspace] at h
    obtain ⟨rfl, rfl⟩ := Prod.mk.inj (Option.some.inj h)
    exact .space hspace
  rw [if_neg hspace] at h
  by_cases hquote : c = '"'
  · rw [if_pos hquote] at h
    obtain ⟨rfl, rfl⟩ := Prod.mk.inj (Option.some.inj h)
    exact hquote ▸ .quote
  rw [if_neg hquote] at h
  by_cases hdigit : c.isDigit = true ∨ c = '-'
  · rw [if_pos hdigit] at h
    obtain ⟨rfl, rfl⟩ := Prod.mk.inj (Option.some.inj h)
    exact .number hdigit
  rw [if_neg hdigit] at h
  by_cases halpha : c.isAlpha = true
  · rw [if_pos halpha] at h
    obtain ⟨rfl, rfl⟩ := Prod.mk.inj (Option.some.inj h)
    exact .word halpha
  rw [if_neg halpha] at h
  have hsign : ∃ token, IsSign c token ∧ some ([token], blank) = some (tokens, scan) := by
    split at h
    · exact ⟨_, .openArray, h⟩
    · exact ⟨_, .closeArray, h⟩
    · exact ⟨_, .openObject, h⟩
    · exact ⟨_, .closeObject, h⟩
    · exact ⟨_, .colon, h⟩
    · exact ⟨_, .comma, h⟩
    · exact absurd h nofun
  obtain ⟨token, htoken, h⟩ := hsign
  obtain ⟨rfl, rfl⟩ := Prod.mk.inj (Option.some.inj h)
  exact .sign htoken

theorem stopsAt_dropWhile (p : Char → Bool) (cs : List Char) : StopsAt p (cs.dropWhile p) := by
  intro c hc
  have hnot := List.head?_dropWhile_not p cs
  rw [Option.mem_def.mp hc] at hnot
  exact hnot

/-- What the scanner finds in a text are its tokens. -/
theorem tokenises_of_run {cs : List Char} (h : run .blank cs = some tokens) :
    Tokenises tokens cs := by
  induction hlength : cs.length using Nat.strongRecOn generalizing cs tokens with
  | ind length ih =>
    cases cs with
    | nil =>
      obtain rfl := Option.some.inj h
      exact .nil
    | cons c cs =>
      rw [List.length_cons] at hlength
      obtain ⟨front, scan, back, hfeed, hrun, rfl⟩ := exists_of_run_cons h
      have hdrop : ∀ p : Char → Bool, (cs.dropWhile p).length < length := fun p => by
        have hle := (List.dropWhile_sublist p (l := cs)).length_le
        omega
      cases starts_of_start? hfeed with
      | space hspace => exact .space hspace (ih _ (by omega) hrun rfl)
      | sign hsign => exact .sign hsign (ih _ (by omega) hrun rfl)
      | quote =>
        obtain ⟨chars, body, rest, back, hchars, rfl, hblank, rfl⟩ := exists_of_run_quoted hrun
        have hshorter : rest.length < length := by
          rw [← hlength, List.length_append, List.length_cons]
          omega
        rw [List.reverse_nil, List.nil_append, List.nil_append]
        refine .text ?_ (ih _ hshorter hblank rfl)
        rwa [String.toList_ofList]
      | number hfirst =>
        rw [run_number] at hrun
        obtain ⟨token, htoken, hrun⟩ := Option.bind_eq_some_iff.mp hrun
        obtain ⟨back', hblank, rfl⟩ := Option.map_eq_some_iff.mp hrun
        obtain ⟨n, hformed, hspells, hsome, rfl⟩ := numberToken?_eq_some_iff.mp htoken
        have hrest := Tokenises.number hformed hspells hsome
          (stopsAt_dropWhile isNumberChar cs) (ih _ (hdrop _) hblank rfl)
        rw [List.reverse_append, List.reverse_reverse, List.append_assoc,
          List.takeWhile_append_dropWhile] at hrest
        exact hrest
      | word hfirst =>
        rw [run_word] at hrun
        obtain ⟨token, htoken, hrun⟩ := Option.bind_eq_some_iff.mp hrun
        obtain ⟨back', hblank, rfl⟩ := Option.map_eq_some_iff.mp hrun
        obtain ⟨value, hword, rfl⟩ := wordToken?_eq_some_iff.mp htoken
        have hrest := Tokenises.word hword (stopsAt_dropWhile Char.isAlpha cs)
          (ih _ (hdrop _) hblank rfl)
        rw [List.reverse_append, List.reverse_reverse, List.append_assoc,
          List.takeWhile_append_dropWhile] at hrest
        exact hrest

theorem run_blank_number {n : NumberLiteral} {cs rest : List Char} (hformed : n.WellFormed)
    (hspells : n.Spells cs) (hsome : n.magnitude?.isSome = true)
    (hrest : StopsAt isNumberChar rest) :
    run .blank (cs ++ rest) = (run .blank rest).map (.scalar (.number n) :: ·) := by
  have hchars := NumberLiteral.isNumberChar_of_spells hformed hspells
  obtain ⟨c, more, rfl, hfirst⟩ := NumberLiteral.exists_of_spells hformed hspells
  have hstart : feed .blank c = some ([], .number [c]) := by
    have hspace : ¬ isSpace c = true := by
      rcases hfirst with hdigit | rfl
      · have hne : ∀ d : Char, d.isDigit = false → (c == d) = false := fun d hd =>
          beq_eq_false_iff_ne.mpr (NumberLiteral.ne_of_isDigit hdigit hd)
        rw [isSpace, hne ' ' rfl, hne '\n' rfl, hne '\t' rfl, hne '\r' rfl]
        decide
      · decide
    have hquote : c ≠ '"' := by
      rcases hfirst with hdigit | rfl
      · exact NumberLiteral.ne_of_isDigit hdigit (by decide)
      · decide
    show start? c = _
    unfold start?
    rw [if_neg hspace, if_neg hquote, if_pos hfirst]
  have hback : (more.reverse ++ [c]).reverse = c :: more := by
    rw [List.reverse_append, List.reverse_reverse]
    rfl
  have htoken := numberToken?_eq_some_iff.mpr ⟨n, hformed, hback.symm ▸ hspells, hsome, rfl⟩
  obtain ⟨htake, hdrop⟩ := NumberLiteral.takeWhile_append_of_stop
    (fun d hd => hchars d (List.mem_cons_of_mem c hd)) hrest
  rw [List.cons_append, run_of_feed hstart, run_number, htake, hdrop, htoken, Option.bind_some]

theorem exists_of_isWord {word : List Char} {value : Json} (h : IsWord word value) :
    ∃ c more, word = c :: more ∧ start? c = some ([], .word [c]) ∧
      ∀ d ∈ more, d.isAlpha = true := by
  cases h with
  | null => exact ⟨'n', ['u', 'l', 'l'], rfl, rfl, List.all_eq_true.mp rfl⟩
  | true => exact ⟨'t', ['r', 'u', 'e'], rfl, rfl, List.all_eq_true.mp rfl⟩
  | false => exact ⟨'f', ['a', 'l', 's', 'e'], rfl, rfl, List.all_eq_true.mp rfl⟩

theorem run_blank_word {word rest : List Char} {value : Json} (h : IsWord word value)
    (hrest : StopsAt Char.isAlpha rest) :
    run .blank (word ++ rest) = (run .blank rest).map (.scalar value :: ·) := by
  have hword := h
  obtain ⟨c, more, rfl, hstart, hmore⟩ := exists_of_isWord h
  have hfeed : feed .blank c = some ([], .word [c]) := hstart
  have hback : (more.reverse ++ [c]).reverse = c :: more := by
    rw [List.reverse_append, List.reverse_reverse]
    rfl
  have htoken := wordToken?_eq_some_iff.mpr ⟨value, hback.symm ▸ hword, rfl⟩
  obtain ⟨htake, hdrop⟩ := NumberLiteral.takeWhile_append_of_stop hmore hrest
  rw [List.cons_append, run_of_feed hfeed, run_word, htake, hdrop, htoken, Option.bind_some]

/-- The scanner finds the tokens of a text. -/
theorem run_of_tokenises {cs : List Char} (h : Tokenises tokens cs) :
    run .blank cs = some tokens := by
  induction h with
  | nil => rfl
  | space hspace _ ih =>
    have hfeed : feed .blank _ = some ([], blank) := if_pos hspace
    rw [run_of_feed hfeed, ih]
  | sign hsign _ ih =>
    have hfeed : feed .blank _ = some (_, blank) := start?_of_isSign hsign
    rw [run_cons hfeed, ih]
    rfl
  | @text s body tokens rest hbody _ ih =>
    have hopen : feed .blank '"' = some ([], .text []) := rfl
    have hclose : feed (.text (s.toList.reverse ++ [])) '"' = some ([.text s], .blank) := by
      rw [feed, if_pos rfl, List.append_nil, List.reverse_reverse, String.ofList_toList]
    rw [run_of_feed hopen, run_of_spellsChars hbody, run_cons hclose, ih]
    rfl
  | number hformed hspells hsome hrest _ ih =>
    rw [run_blank_number hformed hspells hsome hrest, ih]
    rfl
  | word hword hrest _ ih =>
    rw [run_blank_word hword hrest, ih]
    rfl

theorem run_eq_some_iff {cs : List Char} : run .blank cs = some tokens ↔ Tokenises tokens cs :=
  ⟨tokenises_of_run, run_of_tokenises⟩

end Scan

end EdgeClient.Json
