import EdgeClient.Proofs.Scram.Steps

/-!
# Escaped user names

A user name is escaped by two substitutions, one after the other: first the equals signs, then the
commas. The order matters, since the second substitution writes equals signs of its own. Here are
the laws that make the result usable: it has no comma, an equals sign in it always begins an escaped
character, and the name can be told from it (`escape_isReversible`). So the first client string
falls into two parts at its comma, and for one nonce no two users have the same.
-/

namespace EdgeClient.Scram

variable {old new rest text name : Chars} {c d : Char}

/-! ## Substitution -/

/-- Puts `new` in the place of `old`, which is not empty, wherever that stands in a text. -/
def substitute (old new : Chars) : Chars → Chars
  | [] => []
  | c :: rest =>
    if old.isPrefixOf (c :: rest) then
      new ++ substitute old new (rest.drop (old.length - 1))
    else
      c :: substitute old new rest
termination_by text => text.length
decreasing_by
  · rw [List.length_cons, List.length_drop]
    omega
  · exact Nat.lt_succ_self _

theorem substitute_nil (old new : Chars) : substitute old new [] = [] := by
  rw [substitute]

theorem substitute_append (hold : old ≠ []) (new rest : Chars) :
    substitute old new (old ++ rest) = new ++ substitute old new rest := by
  obtain ⟨c, tail, rfl⟩ := List.exists_cons_of_ne_nil hold
  have hprefix : (c :: tail).isPrefixOf (c :: (tail ++ rest)) = true := by simp
  have hdrop : (tail ++ rest).drop ((c :: tail).length - 1) = rest := List.drop_left
  rw [List.cons_append, substitute, if_pos hprefix, hdrop]

theorem substitute_skip (h : ¬ old <+: c :: rest) :
    substitute old new (c :: rest) = c :: substitute old new rest := by
  have hprefix : ¬ old.isPrefixOf (c :: rest) = true := fun hp => h (List.isPrefixOf_iff_prefix.mp hp)
  rw [substitute, if_neg hprefix]

/-- A character that what is looked for does not begin with is left alone. -/
theorem substitute_of_ne (h : c ≠ d) :
    substitute (d :: old) new (c :: rest) = c :: substitute (d :: old) new rest := by
  apply substitute_skip
  intro hprefix
  exact h (List.cons_prefix_cons.mp hprefix).1.symm

/-- A name is escaped by two substitutions, that for equals signs first. -/
theorem escape_eq_substitute (name : Chars) :
    escape name = substitute [','] "=2C".toList (substitute ['='] "=3D".toList name) := by
  fun_induction escape name with
  | case1 => rw [substitute_nil, substitute_nil]
  | case2 rest ih =>
    have hequals : substitute ['='] "=3D".toList ('=' :: rest) =
        '=' :: '3' :: 'D' :: substitute ['='] "=3D".toList rest :=
      substitute_append (by decide) _ rest
    rw [hequals, substitute_of_ne (by decide), substitute_of_ne (by decide),
      substitute_of_ne (by decide), ih]
  | case3 rest ih =>
    have hcomma : ∀ text, substitute [','] "=2C".toList (',' :: text) =
        '=' :: '2' :: 'C' :: substitute [','] "=2C".toList text :=
      fun text => substitute_append (by decide) _ text
    rw [substitute_of_ne (by decide), hcomma, ih]
  | case4 c rest hequals hcomma ih =>
    rw [substitute_of_ne fun h => hequals h, substitute_of_ne fun h => hcomma h, ih]

/-- The substitutions are undone by those the other way around, in the opposite order. -/
theorem substitute_escape (name : Chars) :
    substitute "=3D".toList ['='] (substitute "=2C".toList [','] (escape name)) = name := by
  fun_induction escape name with
  | case1 => rw [substitute_nil, substitute_nil]
  | case2 rest ih =>
    have hkept : ¬ "=2C".toList <+: '=' :: '3' :: 'D' :: escape rest := by
      intro hprefix
      have htail := (List.cons_prefix_cons.mp hprefix).2
      exact absurd (List.cons_prefix_cons.mp htail).1 (by decide)
    have hundone : ∀ text, substitute "=3D".toList ['='] ('=' :: '3' :: 'D' :: text) =
        '=' :: substitute "=3D".toList ['='] text :=
      fun text => substitute_append (by decide) _ text
    rw [substitute_skip hkept]
    show substitute _ _ ('=' :: substitute ('=' :: "2C".toList) _ _) = _
    rw [substitute_of_ne (by decide), substitute_of_ne (by decide), hundone]
    exact congrArg _ ih
  | case3 rest ih =>
    have hundone : substitute "=2C".toList [','] ('=' :: '2' :: 'C' :: escape rest) =
        ',' :: substitute "=2C".toList [','] (escape rest) :=
      substitute_append (by decide) _ (escape rest)
    rw [hundone]
    exact (substitute_of_ne (by decide)).trans (congrArg _ ih)
  | case4 c rest hequals hcomma ih =>
    have hne : c ≠ '=' := fun h => hequals h
    have hinner : substitute "=2C".toList [','] (c :: escape rest) =
        c :: substitute "=2C".toList [','] (escape rest) := substitute_of_ne hne
    rw [hinner]
    exact (substitute_of_ne hne).trans (congrArg _ ih)

/-! ## Equals signs -/

/-- Whether every equals sign of a text begins an escaped character. -/
def IsMarked (text : Chars) : Prop :=
  ∀ front back, text = front ++ '=' :: back → "3D".toList <+: back ∨ "2C".toList <+: back

theorem IsMarked.cons (hmark : c = '=' → "3D".toList <+: text ∨ "2C".toList <+: text)
    (h : IsMarked text) : IsMarked (c :: text) := by
  intro front back hsplit
  rcases List.cons_eq_append_iff.mp hsplit with ⟨rfl, hfirst⟩ | ⟨front', rfl, hrest⟩
  · obtain ⟨rfl, rfl⟩ := List.cons.inj hfirst
    exact hmark rfl
  · exact h front' back hrest

theorem IsMarked.cons_of_ne (hne : c ≠ '=') (h : IsMarked text) : IsMarked (c :: text) :=
  h.cons fun hc => absurd hc hne

theorem isMarked_escape (name : Chars) : IsMarked (escape name) := by
  fun_induction escape name with
  | case1 =>
    intro front back hsplit
    exact absurd hsplit.symm (by simp)
  | case2 rest ih =>
    have htail := (ih.cons_of_ne (c := 'D') (by decide)).cons_of_ne (c := '3') (by decide)
    exact htail.cons fun _ => Or.inl (List.prefix_append "3D".toList _)
  | case3 rest ih =>
    have htail := (ih.cons_of_ne (c := 'C') (by decide)).cons_of_ne (c := '2') (by decide)
    exact htail.cons fun _ => Or.inr (List.prefix_append "2C".toList _)
  | case4 c rest hequals hcomma ih => exact ih.cons_of_ne fun h => hequals h

/-! ## The first client string -/

theorem parts_clientFirstBare (user : String) {nonce : Chars} (hn : ',' ∉ nonce) :
    parts (clientFirstBare user nonce) =
      [entry 'n' (escape user.toList), entry 'r' nonce] := by
  have hjoin : clientFirstBare user nonce =
      entry 'n' (escape user.toList) ++ ',' :: entry 'r' nonce := by
    simp [clientFirstBare, entry]
  have hname : ',' ∉ entry 'n' (escape user.toList) := by
    simp [entry, comma_notMem_escape]
  have hnonce : ',' ∉ entry 'r' nonce := by simp [entry, hn]
  rw [hjoin, parts_cons hname, parts_of_notMem hnonce]

/-- For one nonce the first client string tells who the user is. -/
theorem eq_of_clientFirst_eq {user user' : String} {nonce : Chars}
    (h : clientFirst user nonce = clientFirst user' nonce) : user = user' := by
  have hbare : clientFirstBare user nonce = clientFirstBare user' nonce :=
    List.append_cancel_left h
  have hnamed : "n=".toList ++ escape user.toList = "n=".toList ++ escape user'.toList :=
    List.append_cancel_right (List.append_cancel_right hbare)
  have hescaped : escape user.toList = escape user'.toList := List.append_cancel_left hnamed
  have hname := congrArg unescape hescaped
  rw [unescape_escape, unescape_escape] at hname
  exact String.toList_inj.mp hname

/-- Escaping is two substitutions that can be undone, in one pass or one after the other. It leaves
no comma and no equals sign that does not begin an escaped character. So a server tells the users
by the first strings of their clients, and finds the name before the comma and the nonce behind. -/
theorem escape_isReversible :
    (∀ name : Chars,
      escape name = substitute [','] "=2C".toList (substitute ['='] "=3D".toList name) ∧
      ',' ∉ escape name ∧ IsMarked (escape name) ∧ unescape (escape name) = name ∧
      substitute "=3D".toList ['='] (substitute "=2C".toList [','] (escape name)) = name) ∧
    (∀ (c c' d d' : Conversation) (text text' reply : String),
      c.stage = .initial → c'.stage = .initial → c.clientNonce = c'.clientNonce →
      c.step text = .ok reply d → c'.step text' = .ok reply d' → c.user = c'.user) ∧
    ∀ (user : String) (nonce : Chars), (∀ x ∈ nonce, x.isAlphanum) →
      parts (clientFirstBare user nonce) =
        [entry 'n' (escape user.toList), entry 'r' nonce] := by
  refine ⟨fun name => ?_, ?_, ?_⟩
  · exact ⟨escape_eq_substitute name, comma_notMem_escape name, isMarked_escape name,
      unescape_escape name, substitute_escape name⟩
  · intro c c' d d' text text' reply hc hc' hnonce hstep hstep'
    rw [Conversation.step_initial hc] at hstep
    rw [Conversation.step_initial hc', ← hnonce] at hstep'
    have hreply := (EStateM.Result.ok.inj hstep).1.trans (EStateM.Result.ok.inj hstep').1.symm
    exact eq_of_clientFirst_eq (String.ofList_injective hreply)
  · intro user nonce hnonce
    have hcomma : ',' ∉ nonce := fun h => absurd (hnonce ',' h) (by decide)
    exact parts_clientFirstBare user hcomma

/-- A name that looks as if it had been escaped already, with the first strings of two clients that
know different passwords for it. -/
theorem escape_isReversible_lookalike :
    let nonce := "fyko7d2lbbFgONRv9qkxdawL".toList
    let c : Conversation := { user := "=2C,=", password := "pencil", clientNonce := nonce }
    let c' : Conversation := { user := "=2C,=", password := "eraser", clientNonce := nonce }
    let reply := "n,,n==3D2C=2C=3D,r=fyko7d2lbbFgONRv9qkxdawL"
    escape c.user.toList = "=3D2C=2C=3D".toList ∧ unescape "=3D2C=2C=3D".toList = c.user.toList ∧
      (c.stage = .initial ∧ c'.stage = .initial ∧ c.clientNonce = c'.clientNonce ∧
        c.step "" = .ok reply { c with stage := .awaitingServerFirst } ∧
        c'.step "r=" = .ok reply { c' with stage := .awaitingServerFirst } ∧ c.user = c'.user) ∧
      (∀ x ∈ nonce, x.isAlphanum) ∧
      parts (clientFirstBare c.user nonce) = ["n==3D2C=2C=3D".toList, 'r' :: '=' :: nonce] := by
  intro nonce c c' reply
  have hescape : escape c.user.toList = "=3D2C=2C=3D".toList := by decide
  have hnonce : ∀ x ∈ nonce, x.isAlphanum := List.all_eq_true.mp rfl
  have hreply : String.ofList (clientFirst c.user nonce) = reply := by
    rw [← String.toList_inj, String.toList_ofList]
    decide
  have hstep : c.step "" = .ok reply { c with stage := .awaitingServerFirst } :=
    hreply ▸ Conversation.step_initial rfl ""
  have hstep' : c'.step "r=" = .ok reply { c' with stage := .awaitingServerFirst } :=
    hreply ▸ Conversation.step_initial rfl "r="
  obtain ⟨hnames, husers, hparts⟩ := escape_isReversible
  obtain ⟨-, -, -, hback, -⟩ := hnames c.user.toList
  have huser := husers c c' _ _ "" "r=" reply rfl rfl rfl hstep hstep'
  have hsplit := hparts c.user nonce hnonce
  rw [hescape] at hback hsplit
  exact ⟨hescape, hback, ⟨rfl, rfl, rfl, hstep, hstep', huser⟩, hnonce, hsplit⟩

end EdgeClient.Scram
