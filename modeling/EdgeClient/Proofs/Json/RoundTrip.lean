import EdgeClient.Json.Printer
import EdgeClient.Proofs.Json.Grammar

/-!
# Reading what was written

A document that is nested no deeper than the reader goes, with numbers that it accepts, is read back
from its text (`read?_toText`): the text that is written for a value is one of the texts that have
the tokens of the value. The proof follows the printer. What is behind a piece of text is not looked
at, but a number or a word must not go on there (`Delimits`).
-/

namespace EdgeClient.Json

/-! ## Texts -/

theorem hexValue?_digitChar {d : Nat} (h : d < 16) : Scan.hexValue? d.digitChar = some d := by
  have hall : ∀ d < 16, Scan.hexValue? d.digitChar = some d := by decide
  exact hall d h

theorem spellsChar_code {c : Char} (h : c.toNat < 0x20) :
    SpellsChar c ['\\', 'u', '0', '0', Nat.digitChar (c.toNat / 16),
      Nat.digitChar (c.toNat % 16)] := by
  have hcode : IsCode ['0', '0', Nat.digitChar (c.toNat / 16), Nat.digitChar (c.toNat % 16)]
      (16 * (16 * (16 * 0 + 0) + c.toNat / 16) + c.toNat % 16) :=
    .digits rfl rfl (hexValue?_digitChar (by omega)) (hexValue?_digitChar (by omega))
  have hvalue : 16 * (16 * (16 * 0 + 0) + c.toNat / 16) + c.toNat % 16 = c.toNat := by omega
  rw [hvalue] at hcode
  have hspells := SpellsChar.code hcode (Or.inl (by omega))
  rwa [Char.ofNat_toNat] at hspells

/-- What is written for a character is one of its spellings. -/
theorem spellsChar_escapeChar (c : Char) : SpellsChar c (escapeChar c) := by
  unfold escapeChar
  split
  · exact .short rfl
  · exact .short rfl
  · exact .short rfl
  · exact .short rfl
  · exact .short rfl
  · exact .short rfl
  · exact .short rfl
  · rename_i hquote hback _ _ _ _ _
    by_cases hcontrol : c.toNat < 0x20
    · rw [if_pos hcontrol]
      exact spellsChar_code hcontrol
    · rw [if_neg hcontrol]
      exact .plain (fun h => hquote h) (fun h => hback h) (by omega)

theorem spellsChars_escaped (cs : List Char) : SpellsChars cs (cs.flatMap escapeChar) := by
  induction cs with
  | nil => exact .nil
  | cons c cs ih => exact .cons (spellsChar_escapeChar c) ih

theorem tokenises_quote {tokens : List Token} {rest : List Char} (s : String)
    (h : Tokenises tokens rest) : Tokenises (.text s :: tokens) (quote s ++ rest) := by
  have hquote : quote s ++ rest = '"' :: (s.toList.flatMap escapeChar ++ '"' :: rest) := by
    simp [quote]
  rw [hquote]
  exact .text (spellsChars_escaped s.toList) h

/-! ## Documents -/

/-- Whether neither a number nor a word goes on in a text. -/
structure Delimits (rest : List Char) : Prop where
  number : StopsAt Scan.isNumberChar rest
  word : StopsAt Char.isAlpha rest

theorem delimits_cons {c : Char} (rest : List Char)
    (h : Scan.isNumberChar c = false ∧ c.isAlpha = false) : Delimits (c :: rest) where
  number _ hc := Option.some.inj hc ▸ h.1
  word _ hc := Option.some.inj hc ▸ h.2

theorem delimits_newline (level : Nat) (rest : List Char) : Delimits (newline level ++ rest) :=
  delimits_cons _ (by decide)

theorem delimits_prettyItems (level level' : Nat) (items : List Json) (rest : List Char) :
    Delimits (prettyItems level items ++ (newline level' ++ rest)) := by
  cases items with
  | nil => exact delimits_newline level' rest
  | cons item items => exact delimits_cons _ (by decide)

theorem delimits_prettyMembers (level level' : Nat) (members : List (String × Json))
    (rest : List Char) : Delimits (prettyMembers level members ++ (newline level' ++ rest)) := by
  cases members with
  | nil => exact delimits_newline level' rest
  | cons member members => exact delimits_cons _ (by decide)

theorem tokenises_newline {tokens : List Token} {rest : List Char} (level : Nat)
    (h : Tokenises tokens rest) : Tokenises tokens (newline level ++ rest) := by
  have hspaces : ∀ cs : List Char, (∀ c ∈ cs, Scan.isSpace c = true) →
      Tokenises tokens (cs ++ rest) := by
    intro cs hcs
    induction cs with
    | nil => exact h
    | cons c cs ih =>
      obtain ⟨hc, hcs⟩ := List.forall_mem_cons.mp hcs
      exact .space hc (ih hcs)
  refine hspaces _ fun c hc => ?_
  rcases List.mem_cons.mp hc with rfl | hc
  · decide
  · obtain rfl := (List.mem_replicate.mp hc).2
    decide

theorem tokenises_name {tokens : List Token} {rest : List Char} (name : String)
    (h : Tokenises tokens rest) :
    Tokenises (.text name :: .colon :: tokens) (quote name ++ (": ".toList ++ rest)) :=
  tokenises_quote name (.sign .colon (.space (by decide) h))

mutual

/-- What is written for a value has its tokens, whatever follows it. -/
theorem tokenises_pretty (level : Nat) : (json : Json) → {depth : Nat} → {more : List Token} →
    {rest : List Char} → json.IsReadable depth → Delimits rest → Tokenises more rest →
    Tokenises (json.tokens ++ more) (pretty level json ++ rest)
  | .null, _, _, _, _, hrest, h => .word .null hrest.word h
  | .bool true, _, _, _, _, hrest, h => .word .true hrest.word h
  | .bool false, _, _, _, _, hrest, h => .word .false hrest.word h
  | .number n, _, _, _, hn, hrest, h => .number hn.1 n.spells_toChars hn.2 hrest.number h
  | .string s, _, _, _, _, _, h => tokenises_quote s h
  | .array [], _, _, _, _, _, h => .sign .openArray (.sign .closeArray h)
  | .array (item :: items), _, more, rest, hn, _, h => by
    have htext : pretty level (.array (item :: items)) ++ rest =
        '[' :: (newline (level + 1) ++ (pretty (level + 1) item ++
          (prettyItems (level + 1) items ++ (newline level ++ ']' :: rest)))) := by
      simp [pretty]
    have htokens : (Json.array (item :: items)).tokens ++ more =
        .openArray :: (item.tokens ++ (moreItems items ++ .closeArray :: more)) := by
      simp [tokens]
    have hitems := tokenises_prettyItems (level + 1) level items hn.2.2 (.sign .closeArray h)
    rw [htext, htokens]
    exact .sign .openArray (tokenises_newline _
      (tokenises_pretty (level + 1) item hn.2.1 (delimits_prettyItems _ _ _ _) hitems))
  | .object [], _, _, _, _, _, h => .sign .openObject (.sign .closeObject h)
  | .object ((name, value) :: members), _, more, rest, hn, _, h => by
    have htext : pretty level (.object ((name, value) :: members)) ++ rest =
        '\x7b' :: (newline (level + 1) ++ (quote name ++ (": ".toList ++ (pretty (level + 1) value ++
          (prettyMembers (level + 1) members ++ (newline level ++ '\x7d' :: rest)))))) := by
      simp [pretty]
    have htokens : (Json.object ((name, value) :: members)).tokens ++ more =
        .openObject :: .text name :: .colon ::
          (value.tokens ++ (moreMembers members ++ .closeObject :: more)) := by
      simp [tokens]
    have hmembers := tokenises_prettyMembers (level + 1) level members hn.2.2
      (.sign .closeObject h)
    rw [htext, htokens]
    exact .sign .openObject (tokenises_newline _ (tokenises_name name
      (tokenises_pretty (level + 1) value hn.2.1 (delimits_prettyMembers _ _ _ _) hmembers)))

/-- The items after the first, up to the line on which the list ends. -/
theorem tokenises_prettyItems (inner level : Nat) : (items : List Json) → {depth : Nat} →
    {more : List Token} → {rest : List Char} → ItemsReadable depth items → Tokenises more rest →
    Tokenises (moreItems items ++ more) (prettyItems inner items ++ (newline level ++ rest))
  | [], _, _, _, _, h => tokenises_newline level h
  | item :: items, _, more, rest, hn, h => by
    have htext : prettyItems inner (item :: items) ++ (newline level ++ rest) =
        ',' :: (newline inner ++ (pretty inner item ++
          (prettyItems inner items ++ (newline level ++ rest)))) := by
      simp [prettyItems]
    have htokens : moreItems (item :: items) ++ more =
        .comma :: (item.tokens ++ (moreItems items ++ more)) := by
      simp [moreItems]
    have hitems := tokenises_prettyItems inner level items hn.2 h
    rw [htext, htokens]
    exact .sign .comma (tokenises_newline _
      (tokenises_pretty inner item hn.1 (delimits_prettyItems _ _ _ _) hitems))

/-- The members after the first, up to the line on which the object ends. -/
theorem tokenises_prettyMembers (inner level : Nat) : (members : List (String × Json)) →
    {depth : Nat} → {more : List Token} → {rest : List Char} → MembersReadable depth members →
    Tokenises more rest →
    Tokenises (moreMembers members ++ more) (prettyMembers inner members ++ (newline level ++ rest))
  | [], _, _, _, _, h => tokenises_newline level h
  | (name, value) :: members, _, more, rest, hn, h => by
    have htext : prettyMembers inner ((name, value) :: members) ++ (newline level ++ rest) =
        ',' :: (newline inner ++ (quote name ++ (": ".toList ++ (pretty inner value ++
          (prettyMembers inner members ++ (newline level ++ rest)))))) := by
      simp [prettyMembers]
    have htokens : moreMembers ((name, value) :: members) ++ more =
        .comma :: .text name :: .colon :: (value.tokens ++ (moreMembers members ++ more)) := by
      simp [moreMembers]
    have hmembers := tokenises_prettyMembers inner level members hn.2 h
    rw [htext, htokens]
    exact .sign .comma (tokenises_newline _ (tokenises_name name
      (tokenises_pretty inner value hn.1 (delimits_prettyMembers _ _ _ _) hmembers)))

end

/-- A readable document is read back from its text. -/
theorem read?_toText {json : Json} (h : json.IsReadable 0) : read? json.toText = some json := by
  have hend : Delimits [] := ⟨by simp [StopsAt], by simp [StopsAt]⟩
  have htokens := tokenises_pretty 0 json h hend .nil
  rw [List.append_nil, List.append_nil] at htokens
  refine read?_eq_some_iff.mpr ⟨?_, h⟩
  rwa [toText, String.toList_ofList]

end EdgeClient.Json
