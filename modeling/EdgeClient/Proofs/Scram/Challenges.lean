import EdgeClient.Proofs.Scram.Steps

/-!
# Which first strings are answered

Whether the client gives its proof away, and for which key, is settled by the first string of the
server. `Answerable` says which strings are answered, without the loop that reads them: no part of
the string offends, of each attribute there is a last value, and these values are acceptable.
`Refused` gives the reason why all others are not. A string is one or the other, and a step does
what they say (`Conversation.step_decides_serverFirst`).
-/

namespace EdgeClient.Scram

/-- A part that the client puts up with nowhere in a string, with the reason that it gives. -/
inductive Offends : Chars → AuthError → Prop where
  | salt {value : Chars} : (∀ salt, value ≠ Base64.encode salt) →
      Offends (entry 's' value) (.malformed .saltEncoding)
  | iterations {value : Chars} : (∀ count, ¬ Denotes value count) →
      Offends (entry 'i' value) (.malformed .iterationSyntax)
  | extension (value : Chars) : Offends (entry 'm' value) (.malformed .mandatoryExtension)
  | rejection (value : Chars) : Offends (entry 'e' value) (.rejected (String.ofList value))

/-- The reason that the first offending part gives. -/
inductive FirstOffence : List Chars → AuthError → Prop where
  | here {part : Chars} {rest : List Chars} {e : AuthError} : Offends part e →
      FirstOffence (part :: rest) e
  | later {part : Chars} {rest : List Chars} {e : AuthError} : (∀ e', ¬ Offends part e') →
      FirstOffence rest e → FirstOffence (part :: rest) e

/-- A string in which no part offends. -/
structure WellFormed (text : Chars) : Prop where
  no_extension : ∀ value, entry 'm' value ∉ parts text
  no_rejection : ∀ value, entry 'e' value ∉ parts text
  salts : ∀ value, entry 's' value ∈ parts text → ∃ salt, value = Base64.encode salt
  iterations : ∀ value, entry 'i' value ∈ parts text → ∃ count, Denotes value count

/-- What a well-formed string asks for: of every attribute it is the last one that counts. -/
structure Offers (text : Chars) (challenge : Challenge) : Prop where
  wellFormed : WellFormed text
  nonce : lastValue 'r' text = some challenge.nonce
  salt : lastValue 's' text = some (Base64.encode challenge.salt)
  iterations : ∃ value, lastValue 'i' text = some value ∧ Denotes value challenge.iterations

/-- A string that the client answers, for what it asks for. -/
structure Answerable (clientNonce text : Chars) (challenge : Challenge) : Prop where
  offers : Offers text challenge
  one_le : 1 ≤ challenge.iterations
  le_limit : challenge.iterations ≤ 2 ^ 20
  extends_nonce : ∃ suffix, suffix ≠ [] ∧ challenge.nonce = clientNonce ++ suffix

/-- Why a string is not answered. The first part that offends comes before all else, then what is
missing, then a number of rounds out of bounds, and the nonce comes last. -/
inductive Refused (clientNonce text : Chars) : AuthError → Prop where
  | offence {e : AuthError} : FirstOffence (parts text) e → Refused clientNonce text e
  | missingNonce : WellFormed text → lastValue 'r' text = none →
      Refused clientNonce text (.malformed .missingNonce)
  | missingSalt : WellFormed text → lastValue 'r' text ≠ none → lastValue 's' text = none →
      Refused clientNonce text (.malformed .missingSalt)
  | missingIterations : WellFormed text → lastValue 'r' text ≠ none → lastValue 's' text ≠ none →
      lastValue 'i' text = none → Refused clientNonce text (.malformed .missingIterations)
  | zeroIterations {challenge : Challenge} : Offers text challenge → challenge.iterations = 0 →
      Refused clientNonce text (.malformed .zeroIterations)
  | tooManyIterations {challenge : Challenge} : Offers text challenge →
      2 ^ 20 < challenge.iterations →
      Refused clientNonce text (.malformed (.tooManyIterations challenge.iterations))
  | nonceMismatch {challenge : Challenge} : Offers text challenge → 1 ≤ challenge.iterations →
      challenge.iterations ≤ 2 ^ 20 →
      (∀ suffix, suffix ≠ [] → challenge.nonce ≠ clientNonce ++ suffix) →
      Refused clientNonce text .nonceMismatch

/-! ## Offending parts -/

/-- Whether a part offends does not depend on what has been read before it. -/
theorem readPart_eq_error_iff {seen : ServerFirst} {part : Chars} {e : AuthError} :
    seen.readPart part = .error e ↔ Offends part e := by
  constructor
  · intro h
    have hread := seen.partRead part
    rw [h] at hread
    cases hread with
    | noSalt hd => exact .salt (Base64.decode_eq_none_iff.mp hd)
    | noNumber hn => exact .iterations (number?_eq_none_iff.mp hn)
    | extension value => exact .extension value
    | rejection value => exact .rejection value
  · intro h
    cases h with
    | salt hd => simp [ServerFirst.readPart, entry, valueOf, Base64.decode_eq_none_iff.mpr hd]
    | iterations hn => simp [ServerFirst.readPart, entry, valueOf, number?_eq_none_iff.mpr hn]
    | extension value | rejection value => rfl

/-- Reading stops at the first part that offends, and nowhere else. -/
theorem readParts_eq_error_iff {ps : List Chars} {seen : ServerFirst} {e : AuthError} :
    ServerFirst.readParts ps seen = .error e ↔ FirstOffence ps e := by
  induction ps generalizing seen with
  | nil => exact iff_of_false (by simp [ServerFirst.readParts]) nofun
  | cons part rest ih =>
    rw [ServerFirst.readParts]
    cases hp : seen.readPart part with
    | error e₀ =>
      have hpart : Offends part e₀ := readPart_eq_error_iff.mp hp
      constructor
      · intro h
        obtain rfl := Except.error.inj h
        exact .here hpart
      · intro h
        cases h with
        | here he => exact hp.symm.trans (readPart_eq_error_iff.mpr he)
        | later hnone _ => exact absurd hpart (hnone e₀)
    | ok seen' =>
      have hpart : ∀ e', ¬ Offends part e' := fun e' he =>
        absurd (hp.symm.trans (readPart_eq_error_iff.mpr he)) (by simp)
      refine ih.trans ⟨.later hpart, fun h => ?_⟩
      cases h with
      | here he => exact absurd he (hpart e)
      | later _ hrest => exact hrest

/-- Whether a string is read to its end does not depend on the order of its parts. -/
theorem readParts_ok_iff {ps : List Chars} {seen : ServerFirst} :
    (∃ seen', ServerFirst.readParts ps seen = .ok seen') ↔ ∀ part ∈ ps, ∀ e, ¬ Offends part e := by
  induction ps generalizing seen with
  | nil => exact iff_of_true ⟨seen, rfl⟩ (by simp)
  | cons part rest ih =>
    rw [ServerFirst.readParts, List.forall_mem_cons]
    cases hp : seen.readPart part with
    | error e =>
      have hpart : Offends part e := readPart_eq_error_iff.mp hp
      exact iff_of_false (by simp) fun h => h.1 e hpart
    | ok seen' =>
      have hpart : ∀ e, ¬ Offends part e := fun e he =>
        absurd (hp.symm.trans (readPart_eq_error_iff.mpr he)) (by simp)
      exact ih.trans (and_iff_right hpart).symm

theorem wellFormed_iff {text : Chars} :
    WellFormed text ↔ ∀ part ∈ parts text, ∀ e, ¬ Offends part e := by
  constructor
  · intro h part hpart e he
    cases he with
    | salt hd =>
      obtain ⟨salt, rfl⟩ := h.salts _ hpart
      exact hd salt rfl
    | iterations hn =>
      obtain ⟨count, hcount⟩ := h.iterations _ hpart
      exact hn count hcount
    | extension value => exact h.no_extension value hpart
    | rejection value => exact h.no_rejection value hpart
  · intro h
    refine ⟨fun value hv => h _ hv _ (.extension value), fun value hv => h _ hv _ (.rejection value),
      fun value hv => ?_, fun value hv => ?_⟩
    · cases hd : Base64.decode value with
      | none => exact absurd (.salt (Base64.decode_eq_none_iff.mp hd)) (h _ hv _)
      | some salt => exact ⟨salt, Base64.decode_eq_some_iff.mp hd⟩
    · cases hn : number? value with
      | none => exact absurd (.iterations (number?_eq_none_iff.mp hn)) (h _ hv _)
      | some count => exact ⟨count, number?_eq_some_iff.mp hn⟩

/-! ## Reading what does not offend -/

section

variable {clientNonce text : Chars} {challenge : Challenge} {e : AuthError}

theorem WellFormed.readServerFirst_eq (h : WellFormed text) (clientNonce : Chars) :
    readServerFirst clientNonce text =
      ServerFirst.check ⟨lastValue 'r' text, (lastValue 's' text).bind Base64.decode,
        (lastValue 'i' text).bind number?⟩ clientNonce := by
  -- the loop over the parts gets to the end, and there each field holds what it tracks
  obtain ⟨seen, hread⟩ := readParts_ok_iff.mpr (wellFormed_iff.mp h)
  have hnonce := ServerFirst.tracks_nonce.lastValue hread rfl
  have hsalt := ServerFirst.tracks_salt.lastValue hread rfl
  have hiterations := ServerFirst.tracks_iterations.lastValue hread rfl
  rw [Option.bind_fun_some] at hnonce
  unfold readServerFirst
  rw [hread, ← hnonce, ← hsalt, ← hiterations]

/-- The check of a string that is complete comes down to the bounds and the nonce. -/
theorem Offers.readServerFirst_eq (h : Offers text challenge) (clientNonce : Chars) :
    readServerFirst clientNonce text =
      if challenge.iterations = 0 then .error (.malformed .zeroIterations)
      else if maxIterations < challenge.iterations then
        .error (.malformed (.tooManyIterations challenge.iterations))
      else if clientNonce.isPrefixOf challenge.nonce ∧
          challenge.nonce.length ≠ clientNonce.length then .ok challenge
      else .error .nonceMismatch := by
  obtain ⟨value, hvalue, hcount⟩ := h.iterations
  rw [h.wellFormed.readServerFirst_eq, h.nonce, h.salt, hvalue, Option.bind_some,
    Base64.decode_encode, Option.bind_some, number?_eq_some_iff.mpr hcount]
  rfl

theorem extends_iff {nonce : Chars} :
    clientNonce.isPrefixOf nonce ∧ nonce.length ≠ clientNonce.length ↔
      ∃ suffix, suffix ≠ [] ∧ nonce = clientNonce ++ suffix := by
  rw [List.isPrefixOf_iff_prefix]
  constructor
  · rintro ⟨⟨suffix, rfl⟩, hlen⟩
    exact ⟨suffix, fun hnil => hlen (by rw [hnil, List.append_nil]), rfl⟩
  · rintro ⟨suffix, hne, rfl⟩
    have hpos := List.length_pos_iff.mpr hne
    exact ⟨List.prefix_append _ _, by rw [List.length_append]; omega⟩

theorem Answerable.readServerFirst_eq (h : Answerable clientNonce text challenge) :
    readServerFirst clientNonce text = .ok challenge := by
  have hpos := h.one_le
  have hle := h.le_limit
  have hbound := maxIterations_eq
  rw [h.offers.readServerFirst_eq, if_neg (by omega), if_neg (by omega),
    if_pos (extends_iff.mpr h.extends_nonce)]

theorem Refused.readServerFirst_eq (h : Refused clientNonce text e) :
    readServerFirst clientNonce text = .error e := by
  have hbound := maxIterations_eq
  cases h with
  | offence hfirst =>
    unfold readServerFirst
    rw [readParts_eq_error_iff.mpr hfirst]
  | missingNonce hwell hr =>
    rw [hwell.readServerFirst_eq, hr]
    rfl
  | missingSalt hwell hr hs =>
    obtain ⟨nonce, hr⟩ := Option.ne_none_iff_exists'.mp hr
    rw [hwell.readServerFirst_eq, hr, hs]
    rfl
  | missingIterations hwell hr hs hi =>
    obtain ⟨nonce, hr⟩ := Option.ne_none_iff_exists'.mp hr
    obtain ⟨value, hs⟩ := Option.ne_none_iff_exists'.mp hs
    obtain ⟨salt, rfl⟩ := hwell.salts value (entry_mem_parts hs)
    rw [hwell.readServerFirst_eq, hr, hs, hi, Option.bind_some, Base64.decode_encode]
    rfl
  | zeroIterations hoffers hzero => rw [hoffers.readServerFirst_eq, if_pos hzero]
  | tooManyIterations hoffers hmany =>
    rw [hoffers.readServerFirst_eq, if_neg (by omega), if_pos (by omega)]
  | nonceMismatch hoffers hpos hle hnonce =>
    rw [hoffers.readServerFirst_eq, if_neg (by omega), if_neg (by omega), if_neg]
    intro hextends
    obtain ⟨suffix, hne, heq⟩ := extends_iff.mp hextends
    exact hnonce suffix hne heq

/-! ## One or the other -/

theorem Offers.answerable_or_refused (h : Offers text challenge) (clientNonce : Chars) :
    Answerable clientNonce text challenge ∨ ∃ e, Refused clientNonce text e := by
  by_cases hzero : challenge.iterations = 0
  · exact Or.inr ⟨_, .zeroIterations h hzero⟩
  · have hpos : 1 ≤ challenge.iterations := Nat.pos_of_ne_zero hzero
    by_cases hle : challenge.iterations ≤ 2 ^ 20
    · by_cases hextends : ∃ suffix, suffix ≠ [] ∧ challenge.nonce = clientNonce ++ suffix
      · exact Or.inl ⟨h, hpos, hle, hextends⟩
      · exact Or.inr ⟨_, .nonceMismatch h hpos hle fun suffix hne heq => hextends ⟨suffix, hne, heq⟩⟩
    · exact Or.inr ⟨_, .tooManyIterations h (Nat.lt_of_not_le hle)⟩

theorem WellFormed.offers_or_refused (h : WellFormed text) (clientNonce : Chars) :
    (∃ challenge, Offers text challenge) ∨ ∃ e, Refused clientNonce text e := by
  cases hr : lastValue 'r' text with
  | none => exact Or.inr ⟨_, .missingNonce h hr⟩
  | some nonce =>
    cases hs : lastValue 's' text with
    | none => exact Or.inr ⟨_, .missingSalt h (by simp [hr]) hs⟩
    | some value =>
      obtain ⟨salt, rfl⟩ := h.salts value (entry_mem_parts hs)
      cases hi : lastValue 'i' text with
      | none => exact Or.inr ⟨_, .missingIterations h (by simp [hr]) (by simp [hs]) hi⟩
      | some value =>
        obtain ⟨count, hcount⟩ := h.iterations value (entry_mem_parts hi)
        exact Or.inl ⟨⟨nonce, salt, count⟩, h, hr, hs, value, hi, hcount⟩

theorem answerable_or_refused (clientNonce text : Chars) :
    (∃ challenge, Answerable clientNonce text challenge) ∨ ∃ e, Refused clientNonce text e := by
  cases hread : ServerFirst.readParts (parts text) {} with
  | error e => exact Or.inr ⟨e, .offence (readParts_eq_error_iff.mp hread)⟩
  | ok seen =>
    have hwell : WellFormed text := wellFormed_iff.mpr (readParts_ok_iff.mp ⟨seen, hread⟩)
    rcases hwell.offers_or_refused clientNonce with ⟨challenge, hoffers⟩ | hrefused
    · exact (hoffers.answerable_or_refused clientNonce).imp_left fun h => ⟨challenge, h⟩
    · exact Or.inr hrefused

theorem readServerFirst_eq_ok_iff :
    readServerFirst clientNonce text = .ok challenge ↔ Answerable clientNonce text challenge := by
  refine ⟨fun h => ?_, Answerable.readServerFirst_eq⟩
  rcases answerable_or_refused clientNonce text with ⟨challenge', ha⟩ | ⟨e, hr⟩
  · obtain rfl := Except.ok.inj (ha.readServerFirst_eq.symm.trans h)
    exact ha
  · exact absurd (hr.readServerFirst_eq.symm.trans h) (by simp)

theorem readServerFirst_eq_error_iff :
    readServerFirst clientNonce text = .error e ↔ Refused clientNonce text e := by
  refine ⟨fun h => ?_, Refused.readServerFirst_eq⟩
  rcases answerable_or_refused clientNonce text with ⟨challenge, ha⟩ | ⟨e', hr⟩
  · exact absurd (ha.readServerFirst_eq.symm.trans h) (by simp)
  · obtain rfl := Except.error.inj (hr.readServerFirst_eq.symm.trans h)
    exact hr

end

/-! ## The step -/

namespace Conversation

variable {c c' : Conversation} {text reply : String}

theorem step_of_answerable {challenge : Challenge} (h : c.stage = .awaitingServerFirst)
    (ha : Answerable c.clientNonce text.toList challenge) :
    let key := pbkdf2 (Bytes.ofString c.password) challenge.salt challenge.iterations
    let final := "c=biws,r=".toList ++ challenge.nonce
    let message := authMessage c.firstBare text.toList final
    c.step text =
      .ok (String.ofList (final ++ ",p=".toList ++ Base64.encode (clientProof key message)))
        { c with stage := .awaitingServerFinal ⟨key, message⟩ } := by
  intro key final message
  refine step_of_answer h ?_
  unfold answer
  rw [ha.readServerFirst_eq]
  rfl

theorem step_of_refused {e : AuthError} (h : c.stage = .awaitingServerFirst)
    (hr : Refused c.clientNonce text.toList e) : c.step text = .error e c :=
  step_of_readServerFirst_error h hr.readServerFirst_eq

/-- The client answers a first server string exactly when it is answerable. It then repeats the last
nonce, and its proof is for the key that the last salt and the last number of rounds give. Any other
string is refused for the first of its reasons, and the conversation stays where it is. -/
theorem step_decides_serverFirst (h : c.stage = .awaitingServerFirst) (text : String) :
    (∀ reply c', c.step text = .ok reply c' ↔
      ∃ challenge, Answerable c.clientNonce text.toList challenge ∧
        let key := pbkdf2 (Bytes.ofString c.password) challenge.salt challenge.iterations
        let final := "c=biws,r=".toList ++ challenge.nonce
        let message := authMessage c.firstBare text.toList final
        reply = String.ofList (final ++ ",p=".toList ++ Base64.encode (clientProof key message)) ∧
          c' = { c with stage := .awaitingServerFinal ⟨key, message⟩ }) ∧
      ∀ e c', c.step text = .error e c' ↔ Refused c.clientNonce text.toList e ∧ c' = c := by
  cases hread : readServerFirst c.clientNonce text.toList with
  | ok challenge =>
    have ha := readServerFirst_eq_ok_iff.mp hread
    have hstep := step_of_answerable h ha
    refine ⟨fun reply c' => ⟨fun hok => ?_, ?_⟩, fun e c' => iff_of_false ?_ ?_⟩
    · obtain ⟨rfl, rfl⟩ := EStateM.Result.ok.inj (hstep.symm.trans hok)
      exact ⟨challenge, ha, rfl, rfl⟩
    · rintro ⟨challenge', ha', rfl, rfl⟩
      exact step_of_answerable h ha'
    · rw [hstep]
      simp
    · rintro ⟨hr, -⟩
      exact absurd (hread.symm.trans hr.readServerFirst_eq) (by simp)
  | error e =>
    have hr := readServerFirst_eq_error_iff.mp hread
    have hstep := step_of_refused h hr
    refine ⟨fun reply c' => iff_of_false ?_ ?_, fun e' c' => ⟨fun herr => ?_, ?_⟩⟩
    · rw [hstep]
      simp
    · rintro ⟨challenge, ha, -⟩
      exact absurd (hread.symm.trans ha.readServerFirst_eq) (by simp)
    · obtain ⟨rfl, rfl⟩ := EStateM.Result.error.inj (hstep.symm.trans herr)
      exact ⟨hr, rfl⟩
    · rintro ⟨hr', rfl⟩
      exact step_of_refused h hr'

/-- A string with repeated attributes, of which the first ones would not be acceptable, and with a
part that means nothing; and a string with two parts that offend. -/
theorem step_decides_serverFirst_repeated :
    let c : Conversation :=
      { user := "user", password := "pencil", clientNonce := ['a', 'b'],
        stage := .awaitingServerFirst }
    c.stage = .awaitingServerFirst ∧
      (∃ reply c', c.step "i=0,s=AAAA,r=ab,x=9,r=abc,i=+01" = .ok reply c') ∧
      c.step "r=ab,e=no,i=x" = .error (.rejected "no") c := by
  intro c
  have hread : readServerFirst c.clientNonce "i=0,s=AAAA,r=ab,x=9,r=abc,i=+01".toList =
      .ok ⟨['a', 'b', 'c'], [0, 0, 0], 1⟩ := rfl
  have hrejected : readServerFirst c.clientNonce "r=ab,e=no,i=x".toList =
      .error (.rejected "no") := rfl
  have hanswer := step_decides_serverFirst (c := c) rfl "i=0,s=AAAA,r=ab,x=9,r=abc,i=+01"
  have hrefuse := step_decides_serverFirst (c := c) rfl "r=ab,e=no,i=x"
  refine ⟨rfl, ?_, ?_⟩
  · exact ⟨_, _, (hanswer.1 _ _).mpr ⟨_, readServerFirst_eq_ok_iff.mp hread, rfl, rfl⟩⟩
  · exact (hrefuse.2 _ _).mpr ⟨readServerFirst_eq_error_iff.mp hrejected, rfl⟩

end Conversation

end EdgeClient.Scram
