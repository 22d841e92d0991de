import EdgeClient.Proofs.Json.Tokens

/-!
# The texts of a value

Every value has one list of tokens, so that what the texts of a value differ in is below the tokens:
white space and spellings. A text is read as a value exactly if it has the tokens of that value and
the value is one that the reader accepts, neither nested too deeply nor with a number too large
(`read?_eq_some_iff`).

A draft stands for the tokens that it has taken in, except for those of its complete values, which
are the tokens of these values again. `Draft.Took` gives them back for every draft that can come up,
and one more token on the draft's side is one more token on the other.
-/

namespace EdgeClient.Json

/-! ## The grammar -/

mutual

/-- The tokens of a value. -/
def tokens : Json → List Token
  | .null => [.scalar .null]
  | .bool b => [.scalar (.bool b)]
  | .number n => [.scalar (.number n)]
  | .string s => [.text s]
  | .array [] => [.openArray, .closeArray]
  | .array (item :: rest) => .openArray :: (item.tokens ++ (moreItems rest ++ [.closeArray]))
  | .object [] => [.openObject, .closeObject]
  | .object ((name, value) :: rest) =>
    .openObject :: .text name :: .colon ::
      (value.tokens ++ (moreMembers rest ++ [.closeObject]))

/-- The tokens of the items of a list after the first. -/
def moreItems : List Json → List Token
  | [] => []
  | item :: rest => .comma :: (item.tokens ++ moreItems rest)

/-- The tokens of the members of an object after the first. -/
def moreMembers : List (String × Json) → List Token
  | [] => []
  | (name, value) :: rest =>
    .comma :: .text name :: .colon :: (value.tokens ++ moreMembers rest)

end

mutual

/-- Whether a value inside so many lists and objects is one that the reader accepts: its numbers are
well formed and not too large, and it is not nested too deeply. -/
def IsReadable (depth : Nat) : Json → Prop
  | .null | .bool _ | .string _ => True
  | .number n => n.WellFormed ∧ n.magnitude?.isSome = true
  | .array items => depth < Draft.maxDepth ∧ ItemsReadable (depth + 1) items
  | .object members => depth < Draft.maxDepth ∧ MembersReadable (depth + 1) members

/-- Whether the reader accepts all items of a list, each inside so many lists and objects. -/
def ItemsReadable (depth : Nat) : List Json → Prop
  | [] => True
  | item :: items => item.IsReadable depth ∧ ItemsReadable depth items

/-- Whether the reader accepts the values of all members of an object. It accepts any name. -/
def MembersReadable (depth : Nat) : List (String × Json) → Prop
  | [] => True
  | (_, value) :: members => value.IsReadable depth ∧ MembersReadable depth members

end

/-- Whether a text is one that a value may be written as. -/
structure IsWrittenAs (json : Json) (text : String) : Prop where
  tokens : Tokenises json.tokens text.toList
  readable : json.IsReadable 0

theorem itemsReadable_iff {depth : Nat} {items : List Json} :
    ItemsReadable depth items ↔ ∀ item ∈ items, item.IsReadable depth := by
  induction items with
  | nil => exact iff_of_true trivial nofun
  | cons item items ih => rw [ItemsReadable, ih, List.forall_mem_cons]

theorem membersReadable_iff {depth : Nat} {members : List (String × Json)} :
    MembersReadable depth members ↔ ∀ member ∈ members, member.2.IsReadable depth := by
  induction members with
  | nil => exact iff_of_true trivial nofun
  | cons member members ih => rw [MembersReadable, ih, List.forall_mem_cons]

theorem membersReadable_append {depth : Nat} {front back : List (String × Json)}
    (hfront : MembersReadable depth front) (hback : MembersReadable depth back) :
    MembersReadable depth (front ++ back) :=
  membersReadable_iff.mpr (List.forall_mem_append.mpr
    ⟨membersReadable_iff.mp hfront, membersReadable_iff.mp hback⟩)

/-! ## Taking in the tokens of a value -/

namespace Draft

variable {draft draft' : Draft} {token : Token}

theorem feedAll_cons (h : draft.feed token = some draft') (tokens : List Token) :
    draft.feedAll (token :: tokens) = draft'.feedAll tokens := by
  rw [feedAll, List.foldlM_cons, h]
  rfl

theorem feedAll_append (draft : Draft) (front back : List Token) :
    draft.feedAll (front ++ back) = (draft.feedAll front).bind (·.feedAll back) := by
  rw [feedAll, List.foldlM_append]
  rfl

/-- Whether a value may come next. -/
def TakesValue (draft : Draft) : Prop :=
  draft.expecting = .value ∨ draft.expecting = .firstItem

theorem TakesValue.feed (h : draft.TakesValue) (token : Token) (ht : token ≠ .closeArray) :
    draft.feed token = feedValue draft.containers token := by
  obtain ⟨containers, expecting⟩ := draft
  rcases h with h | h
  · obtain rfl : expecting = .value := h
    rfl
  · obtain rfl : expecting = .firstItem := h
    cases token with
    | closeArray => exact absurd rfl ht
    | _ => rfl

theorem TakesValue.feed_openArray (h : draft.TakesValue)
    (hlt : draft.containers.length < maxDepth) :
    draft.feed .openArray = some ⟨.array [] :: draft.containers, .firstItem⟩ := by
  have hvalue := h.feed .openArray nofun
  exact hvalue.trans (if_pos hlt)

theorem TakesValue.feed_openObject (h : draft.TakesValue)
    (hlt : draft.containers.length < maxDepth) :
    draft.feed .openObject = some ⟨.object [] "" :: draft.containers, .firstName⟩ := by
  have hvalue := h.feed .openObject nofun
  exact hvalue.trans (if_pos hlt)

/-- A name and the colon behind it. -/
theorem feedAll_name {members : List (String × Json)} {name' : String} {outer : List Container}
    {expecting : Expectation} (h : expecting = .firstName ∨ expecting = .name) (name : String)
    (tokens : List Token) :
    feedAll ⟨.object members name' :: outer, expecting⟩ (.text name :: .colon :: tokens) =
      feedAll ⟨.object members name :: outer, .value⟩ tokens := by
  have hname : feed ⟨.object members name' :: outer, expecting⟩ (.text name) =
      some ⟨.object members name :: outer, .colon⟩ := by
    rcases h with rfl | rfl
    · rfl
    · rfl
  have hcolon : feed ⟨.object members name :: outer, .colon⟩ .colon =
      some ⟨.object members name :: outer, .value⟩ := rfl
  rw [feedAll_cons hname, feedAll_cons hcolon]

end Draft

mutual

/-- A value is taken in where one may come, whatever follows it. -/
theorem feedAll_tokens : (json : Json) → (draft : Draft) → (rest : List Token) →
    json.IsReadable draft.containers.length → draft.TakesValue →
    draft.feedAll (json.tokens ++ rest) = (Draft.complete draft.containers json).feedAll rest
  | .null, draft, rest, _, hd => Draft.feedAll_cons (hd.feed (.scalar .null) nofun) rest
  | .bool b, draft, rest, _, hd => Draft.feedAll_cons (hd.feed (.scalar (.bool b)) nofun) rest
  | .number n, draft, rest, _, hd => Draft.feedAll_cons (hd.feed (.scalar (.number n)) nofun) rest
  | .string s, draft, rest, _, hd => Draft.feedAll_cons (hd.feed (.text s) nofun) rest
  | .array [], draft, rest, h, hd => by
    have hclose : Draft.feed ⟨.array [] :: draft.containers, .firstItem⟩ .closeArray =
        some (Draft.complete draft.containers (.array [])) := rfl
    exact (Draft.feedAll_cons (hd.feed_openArray h.1) _).trans (Draft.feedAll_cons hclose rest)
  | .array (item :: items), draft, rest, h, hd => by
    have htokens : (Json.array (item :: items)).tokens ++ rest =
        .openArray :: (item.tokens ++ (moreItems items ++ .closeArray :: rest)) := by
      simp [tokens]
    rw [htokens, Draft.feedAll_cons (hd.feed_openArray h.1),
      feedAll_tokens item ⟨.array [] :: draft.containers, .firstItem⟩ _ h.2.1 (Or.inr rfl)]
    exact feedAll_moreItems items rest h.2.2
  | .object [], draft, rest, h, hd => by
    have hclose : Draft.feed ⟨.object [] "" :: draft.containers, .firstName⟩ .closeObject =
        some (Draft.complete draft.containers (.object [])) := rfl
    exact (Draft.feedAll_cons (hd.feed_openObject h.1) _).trans (Draft.feedAll_cons hclose rest)
  | .object ((name, value) :: members), draft, rest, h, hd => by
    have htokens : (Json.object ((name, value) :: members)).tokens ++ rest =
        .openObject :: .text name :: .colon ::
          (value.tokens ++ (moreMembers members ++ .closeObject :: rest)) := by
      simp [tokens]
    rw [htokens, Draft.feedAll_cons (hd.feed_openObject h.1), Draft.feedAll_name (Or.inl rfl),
      feedAll_tokens value ⟨.object [] name :: draft.containers, .value⟩ _ h.2.1 (Or.inl rfl)]
    exact feedAll_moreMembers members rest h.2.2

/-- The items after the first are taken in to the end of the list. -/
theorem feedAll_moreItems : (items : List Json) → (rest : List Token) → {done : List Json} →
    {outer : List Container} → ItemsReadable (outer.length + 1) items →
    Draft.feedAll ⟨.array done :: outer, .separator⟩ (moreItems items ++ .closeArray :: rest) =
      (Draft.complete outer (.array (done.reverse ++ items))).feedAll rest
  | [], rest, done, outer, _ => by
    have hclose : Draft.feed ⟨.array done :: outer, .separator⟩ .closeArray =
        some (Draft.complete outer (.array done.reverse)) := rfl
    rw [moreItems, List.nil_append, Draft.feedAll_cons hclose, List.append_nil]
  | item :: items, rest, done, outer, h => by
    have hcomma : Draft.feed ⟨.array done :: outer, .separator⟩ .comma =
        some ⟨.array done :: outer, .value⟩ := rfl
    have htokens : moreItems (item :: items) ++ .closeArray :: rest =
        .comma :: (item.tokens ++ (moreItems items ++ .closeArray :: rest)) := by
      simp [moreItems]
    have hdone : done.reverse ++ item :: items = (item :: done).reverse ++ items := by simp
    rw [htokens, Draft.feedAll_cons hcomma,
      feedAll_tokens item ⟨.array done :: outer, .value⟩ _ h.1 (Or.inl rfl), hdone]
    exact feedAll_moreItems items rest h.2

/-- The members after the first are taken in to the end of the object. -/
theorem feedAll_moreMembers : (members : List (String × Json)) → (rest : List Token) →
    {done : List (String × Json)} → {last : String} → {outer : List Container} →
    MembersReadable (outer.length + 1) members →
    Draft.feedAll ⟨.object done last :: outer, .separator⟩
        (moreMembers members ++ .closeObject :: rest) =
      (Draft.complete outer (.object (done.reverse ++ members))).feedAll rest
  | [], rest, done, last, outer, _ => by
    have hclose : Draft.feed ⟨.object done last :: outer, .separator⟩ .closeObject =
        some (Draft.complete outer (.object done.reverse)) := rfl
    rw [moreMembers, List.nil_append, Draft.feedAll_cons hclose, List.append_nil]
  | (name, value) :: members, rest, done, last, outer, h => by
    have hcomma : Draft.feed ⟨.object done last :: outer, .separator⟩ .comma =
        some ⟨.object done last :: outer, .name⟩ := rfl
    have htokens : moreMembers ((name, value) :: members) ++ .closeObject :: rest =
        .comma :: .text name :: .colon ::
          (value.tokens ++ (moreMembers members ++ .closeObject :: rest)) := by
      simp [moreMembers]
    have hdone : done.reverse ++ (name, value) :: members =
        ((name, value) :: done).reverse ++ members := by simp
    rw [htokens, Draft.feedAll_cons hcomma, Draft.feedAll_name (Or.inr rfl),
      feedAll_tokens value ⟨.object done name :: outer, .value⟩ _ h.1 (Or.inl rfl), hdone]
    exact feedAll_moreMembers members rest h.2

end

/-! ## The tokens behind a draft -/

/-- The tokens of items each of which is followed by a comma. -/
def endedItems (items : List Json) : List Token :=
  items.flatMap fun item => item.tokens ++ [.comma]

/-- The tokens of a member: its name, a colon, and those of its value. -/
def memberTokens (member : String × Json) : List Token :=
  .text member.1 :: .colon :: member.2.tokens

/-- The tokens of members each of which is followed by a comma. -/
def endedMembers (members : List (String × Json)) : List Token :=
  members.flatMap fun member => memberTokens member ++ [.comma]

theorem endedItems_snoc (items : List Json) (item : Json) :
    endedItems (items ++ [item]) = endedItems items ++ (item.tokens ++ [.comma]) := by
  simp [endedItems]

theorem endedMembers_snoc (members : List (String × Json)) (member : String × Json) :
    endedMembers (members ++ [member]) =
      endedMembers members ++ (memberTokens member ++ [.comma]) := by
  simp [endedMembers]

/-- The tokens of items with commas between them. -/
theorem tokens_array_snoc (items : List Json) (item : Json) :
    (Json.array (items ++ [item])).tokens =
      .openArray :: (endedItems items ++ item.tokens ++ [.closeArray]) := by
  have hmore : ∀ items,
      moreItems (items ++ [item]) = .comma :: (endedItems items ++ item.tokens) := by
    intro items
    induction items with
    | nil => simp [moreItems, endedItems]
    | cons first items ih =>
      rw [List.cons_append, moreItems, ih]
      simp [endedItems]
  cases items with
  | nil => simp [tokens, moreItems, endedItems]
  | cons first items =>
    rw [List.cons_append, tokens, hmore]
    simp [endedItems]

theorem tokens_object_snoc (members : List (String × Json)) (member : String × Json) :
    (Json.object (members ++ [member])).tokens =
      .openObject :: (endedMembers members ++ memberTokens member ++ [.closeObject]) := by
  have hmore : ∀ members,
      moreMembers (members ++ [member]) = .comma :: (endedMembers members ++ memberTokens member) := by
    intro members
    induction members with
    | nil => simp [moreMembers, endedMembers, memberTokens]
    | cons first members ih =>
      rw [List.cons_append, moreMembers, ih]
      simp [endedMembers, memberTokens]
  cases members with
  | nil => simp [tokens, moreMembers, endedMembers, memberTokens]
  | cons first members =>
    rw [List.cons_append, tokens, hmore]
    simp [endedMembers, memberTokens]

/-- The tokens that lists and objects have taken in before the value that comes next in them. -/
def opened : List Container → List Token
  | [] => []
  | .array items :: outer => opened outer ++ .openArray :: endedItems items.reverse
  | .object members name :: outer =>
    opened outer ++ .openObject :: (endedMembers members.reverse ++ [.text name, .colon])

/-- The tokens that a draft has taken in. -/
inductive Draft.Took : Draft → List Token → Prop where
  | value (containers : List Container) : Took ⟨containers, .value⟩ (opened containers)
  | firstItem (outer : List Container) :
      Took ⟨.array [] :: outer, .firstItem⟩ (opened outer ++ [.openArray])
  | firstName (outer : List Container) (name : String) :
      Took ⟨.object [] name :: outer, .firstName⟩ (opened outer ++ [.openObject])
  | name (outer : List Container) (members : List (String × Json)) (name : String) :
      Took ⟨.object members name :: outer, .name⟩
        (opened outer ++ .openObject :: endedMembers members.reverse)
  | colon (outer : List Container) (members : List (String × Json)) (name : String) :
      Took ⟨.object members name :: outer, .colon⟩
        (opened outer ++ .openObject :: (endedMembers members.reverse ++ [.text name]))
  | item (outer : List Container) (items : List Json) (item : Json) :
      Took ⟨.array (item :: items) :: outer, .separator⟩
        (opened outer ++ .openArray :: (endedItems items.reverse ++ item.tokens))
  | member (outer : List Container) (members : List (String × Json)) (member : String × Json)
      (name : String) : Took ⟨.object (member :: members) name :: outer, .separator⟩
        (opened outer ++ .openObject :: (endedMembers members.reverse ++ memberTokens member))
  | done (json : Json) : Took ⟨[], .done json⟩ json.tokens

namespace Draft

variable {draft draft' : Draft} {token : Token} {taken : List Token}

/-- A token that stands for its value. -/
def IsPlain : Token → Prop
  | .scalar value => value.tokens = [.scalar value]
  | _ => True

theorem took_complete (containers : List Container) (json : Json) :
    Took (complete containers json) (opened containers ++ json.tokens) := by
  match containers with
  | [] => exact .done json
  | .array items :: outer =>
    rw [opened, List.append_assoc]
    exact .item outer items json
  | .object members name :: outer =>
    have htokens : opened (.object members name :: outer) ++ json.tokens =
        opened outer ++
          .openObject :: (endedMembers members.reverse ++ memberTokens (name, json)) := by
      simp [opened, memberTokens]
    rw [htokens]
    exact .member outer members (name, json) name

theorem took_feedValue {containers : List Container} (ht : IsPlain token)
    (h : feedValue containers token = some draft') :
    draft'.Took (opened containers ++ [token]) := by
  cases token with
  | scalar value =>
    obtain rfl := Option.some.inj h
    exact ht ▸ took_complete containers value
  | text s =>
    obtain rfl := Option.some.inj h
    have hs := took_complete containers (.string s)
    rwa [tokens] at hs
  | openArray =>
    obtain ⟨-, h⟩ := Option.ite_none_right_eq_some.mp h
    obtain rfl := Option.some.inj h
    exact .firstItem containers
  | openObject =>
    obtain ⟨-, h⟩ := Option.ite_none_right_eq_some.mp h
    obtain rfl := Option.some.inj h
    exact .firstName containers ""
  | _ => exact absurd h nofun

theorem took_feedName {outer : List Container} {members : List (String × Json)} {name : String}
    (h : feedName (.object members name :: outer) token = some draft') :
    draft'.Took (opened outer ++ .openObject :: endedMembers members.reverse ++ [token]) := by
  cases token with
  | text name' =>
    obtain rfl := Option.some.inj h
    rw [List.append_assoc]
    exact .colon outer members name'
  | _ => exact absurd h nofun

theorem Took.feed (h : draft.Took taken) (ht : IsPlain token)
    (hfeed : draft.feed token = some draft') : draft'.Took (taken ++ [token]) := by
  cases h with
  | value containers => exact took_feedValue ht hfeed
  | firstItem outer =>
    by_cases hclose : token = .closeArray
    · subst hclose
      obtain rfl := Option.some.inj hfeed
      have hempty := took_complete outer (.array [])
      rw [List.append_assoc]
      rwa [tokens] at hempty
    · have hfirst : TakesValue ⟨.array [] :: outer, .firstItem⟩ := Or.inr rfl
      have hvalue : feedValue (.array [] :: outer) token = some draft' :=
        (hfirst.feed token hclose).symm.trans hfeed
      exact took_feedValue ht hvalue
  | firstName outer name =>
    by_cases hclose : token = .closeObject
    · subst hclose
      obtain rfl := Option.some.inj hfeed
      have hempty := took_complete outer (.object [])
      rw [List.append_assoc]
      rwa [tokens] at hempty
    · have hname : feedName (.object [] name :: outer) token = some draft' := by
        cases token with
        | closeObject => exact absurd rfl hclose
        | _ => exact hfeed
      exact took_feedName hname
  | name outer members name => exact took_feedName hfeed
  | colon outer members name =>
    cases token with
    | colon =>
      obtain rfl := Option.some.inj hfeed
      have hopened := Took.value (.object members name :: outer)
      rw [opened] at hopened
      simpa using hopened
    | _ => exact absurd hfeed nofun
  | item outer items item =>
    cases token with
    | comma =>
      obtain rfl := Option.some.inj hfeed
      have hopened := Took.value (.array (item :: items) :: outer)
      rw [opened, List.reverse_cons, endedItems_snoc] at hopened
      simpa using hopened
    | closeArray =>
      obtain rfl := Option.some.inj hfeed
      have hclosed := took_complete outer (.array (item :: items).reverse)
      rw [List.reverse_cons, tokens_array_snoc] at hclosed
      simpa using hclosed
    | _ => exact absurd hfeed nofun
  | member outer members member name =>
    cases token with
    | comma =>
      obtain rfl := Option.some.inj hfeed
      have hopened := Took.name outer (member :: members) name
      rw [List.reverse_cons, endedMembers_snoc] at hopened
      simpa using hopened
    | closeObject =>
      obtain rfl := Option.some.inj hfeed
      have hclosed := took_complete outer (.object (member :: members).reverse)
      rw [List.reverse_cons, tokens_object_snoc] at hclosed
      simpa using hclosed
    | _ => exact absurd hfeed nofun
  | done json => exact absurd hfeed nofun

theorem Took.feedAll {tokens : List Token} (h : draft.Took taken)
    (ht : ∀ token ∈ tokens, IsPlain token) (hfeed : draft.feedAll tokens = some draft') :
    draft'.Took (taken ++ tokens) := by
  induction tokens generalizing draft taken with
  | nil =>
    obtain rfl := Option.some.inj hfeed
    rwa [List.append_nil]
  | cons token tokens ih =>
    obtain ⟨hfirst, hrest⟩ := List.forall_mem_cons.mp ht
    obtain ⟨next, hnext, hfeed⟩ := Option.bind_eq_some_iff.mp hfeed
    have hmore := ih (h.feed hfirst hnext) hrest hfeed
    rwa [List.append_assoc] at hmore

/-! ## What is accepted -/

/-- Whether what an open list or object holds is accepted at this depth. -/
def ContainerReadable (depth : Nat) : Container → Prop
  | .array items => ∀ item ∈ items, item.IsReadable depth
  | .object members _ => ∀ member ∈ members, member.2.IsReadable depth

/-- Whether what is open is accepted. -/
def ContainersReadable : List Container → Prop
  | [] => True
  | c :: outer =>
    outer.length < maxDepth ∧ ContainerReadable (outer.length + 1) c ∧ ContainersReadable outer

/-- Whether all values in a draft are accepted. -/
structure IsReadable (draft : Draft) : Prop where
  containers : ContainersReadable draft.containers
  result : ∀ json, draft.expecting = .done json → json.IsReadable 0

/-- A token that is accepted at any depth. -/
def TokenReadable : Token → Prop
  | .scalar value => ∀ depth, value.IsReadable depth
  | _ => True

theorem readable_complete {containers : List Container} {json : Json}
    (hc : ContainersReadable containers) (hjson : json.IsReadable containers.length) :
    (complete containers json).IsReadable := by
  match containers, hc with
  | [], _ => exact ⟨trivial, fun _ h => by cases h; exact hjson⟩
  | .array items :: outer, hc =>
    exact ⟨⟨hc.1, List.forall_mem_cons.mpr ⟨hjson, hc.2.1⟩, hc.2.2⟩, nofun⟩
  | .object members name :: outer, hc =>
    exact ⟨⟨hc.1, List.forall_mem_cons.mpr ⟨hjson, hc.2.1⟩, hc.2.2⟩, nofun⟩

theorem readable_feedValue {containers : List Container} (hc : ContainersReadable containers)
    (ht : TokenReadable token) (h : feedValue containers token = some draft') :
    draft'.IsReadable := by
  cases token with
  | scalar value =>
    obtain rfl := Option.some.inj h
    exact readable_complete hc (ht _)
  | text s =>
    obtain rfl := Option.some.inj h
    exact readable_complete hc trivial
  | openArray | openObject =>
    obtain ⟨hlt, h⟩ := Option.ite_none_right_eq_some.mp h
    obtain rfl := Option.some.inj h
    exact ⟨⟨hlt, nofun, hc⟩, nofun⟩
  | _ => exact absurd h nofun

theorem readable_feedName {containers : List Container} (hc : ContainersReadable containers)
    (h : feedName containers token = some draft') : draft'.IsReadable := by
  unfold feedName at h
  split at h
  · obtain rfl := Option.some.inj h
    exact ⟨hc, nofun⟩
  · exact absurd h nofun

theorem readable_close {containers : List Container} (hc : ContainersReadable containers)
    (h : close containers token = some draft') : draft'.IsReadable := by
  unfold close at h
  split at h
  · obtain rfl := Option.some.inj h
    refine readable_complete hc.2.2 ⟨hc.1, itemsReadable_iff.mpr fun item hitem => ?_⟩
    exact hc.2.1 item (List.mem_reverse.mp hitem)
  · obtain rfl := Option.some.inj h
    refine readable_complete hc.2.2 ⟨hc.1, membersReadable_iff.mpr fun member hmember => ?_⟩
    exact hc.2.1 member (List.mem_reverse.mp hmember)
  · exact absurd h nofun

theorem IsReadable.feed (h : draft.IsReadable) (ht : TokenReadable token)
    (hfeed : draft.feed token = some draft') : draft'.IsReadable := by
  have hc := h.containers
  unfold Draft.feed at hfeed
  split at hfeed
  · exact readable_feedValue hc ht hfeed
  · split at hfeed
    · exact readable_close hc hfeed
    · exact readable_feedValue hc ht hfeed
  · split at hfeed
    · exact readable_close hc hfeed
    · exact readable_feedName hc hfeed
  · exact readable_feedName hc hfeed
  · split at hfeed
    · obtain rfl := Option.some.inj hfeed
      exact ⟨hc, nofun⟩
    · exact absurd hfeed nofun
  · split at hfeed
    · obtain rfl := Option.some.inj hfeed
      exact ⟨hc, nofun⟩
    · obtain rfl := Option.some.inj hfeed
      exact ⟨hc, nofun⟩
    · exact readable_close hc hfeed
  · exact absurd hfeed nofun

theorem IsReadable.feedAll {tokens : List Token} (h : draft.IsReadable)
    (ht : ∀ token ∈ tokens, TokenReadable token) (hfeed : draft.feedAll tokens = some draft') :
    draft'.IsReadable := by
  induction tokens generalizing draft with
  | nil =>
    obtain rfl := Option.some.inj hfeed
    exact h
  | cons token tokens ih =>
    obtain ⟨hfirst, hrest⟩ := List.forall_mem_cons.mp ht
    obtain ⟨next, hnext, hfeed⟩ := Option.bind_eq_some_iff.mp hfeed
    exact ih (h.feed hfirst hnext) hrest hfeed

end Draft

/-! ## Whole texts -/

theorem readFrom_eq (scan : Scan) (draft : Draft) (cs : List Char) :
    readFrom scan draft cs =
      (scan.run cs).bind fun tokens => (draft.feedAll tokens).bind Draft.finish := by
  induction cs generalizing scan draft with
  | nil =>
    rw [readFrom, Scan.run]
    cases scan.finish with
    | none => rfl
    | some tokens => rfl
  | cons c rest ih =>
    rw [readFrom, Scan.run]
    cases scan.feed c with
    | none => rfl
    | some fed =>
      obtain ⟨front, scan'⟩ := fed
      simp only [Option.bind_some]
      -- the reader stops at a token out of place, before the rest of the text has been scanned
      cases hfeed : draft.feedAll front with
      | none =>
        cases scan'.run rest with
        | none => rfl
        | some back => simp [Draft.feedAll_append, hfeed]
      | some next =>
        simp only [ih]
        cases scan'.run rest with
        | none => rfl
        | some back => simp [Draft.feedAll_append, hfeed]

theorem plain_of_tokenises {tokens : List Token} {cs : List Char} (h : Tokenises tokens cs) :
    ∀ token ∈ tokens, Draft.IsPlain token ∧ Draft.TokenReadable token := by
  induction h with
  | nil => exact nofun
  | space _ _ ih => exact ih
  | sign hsign _ ih =>
    refine List.forall_mem_cons.mpr ⟨?_, ih⟩
    cases hsign with
    | _ => exact ⟨trivial, trivial⟩
  | text _ _ ih => exact List.forall_mem_cons.mpr ⟨⟨trivial, trivial⟩, ih⟩
  | number hformed _ hsome _ _ ih =>
    exact List.forall_mem_cons.mpr ⟨⟨rfl, fun _ => ⟨hformed, hsome⟩⟩, ih⟩
  | word hword _ _ ih =>
    refine List.forall_mem_cons.mpr ⟨?_, ih⟩
    cases hword with
    | _ => exact ⟨rfl, fun _ => trivial⟩

/-- A text is read as a value exactly if the value may be written as that text. -/
theorem read?_eq_some_iff {text : String} {json : Json} :
    read? text = some json ↔ json.IsWrittenAs text := by
  rw [read?, readFrom_eq]
  constructor
  · intro h
    obtain ⟨tokens, hrun, h⟩ := Option.bind_eq_some_iff.mp h
    obtain ⟨draft, hfeed, hfinish⟩ := Option.bind_eq_some_iff.mp h
    have htokens := Scan.run_eq_some_iff.mp hrun
    have hplain := plain_of_tokenises htokens
    have hempty : Draft.IsReadable {} := ⟨trivial, nofun⟩
    have hreadable := hempty.feedAll (fun token ht => (hplain token ht).2) hfeed
    have htook := (Draft.Took.value []).feedAll (fun token ht => (hplain token ht).1) hfeed
    rw [opened, List.nil_append] at htook
    cases htook with
    | done json' =>
      obtain rfl := Option.some.inj hfinish
      exact ⟨htokens, hreadable.result _ rfl⟩
    | _ => exact absurd hfinish nofun
  · rintro ⟨htokens, hreadable⟩
    have hfeed := feedAll_tokens json {} [] hreadable (Or.inl rfl)
    rw [List.append_nil] at hfeed
    rw [Scan.run_eq_some_iff.mpr htokens, Option.bind_some, hfeed]
    rfl

end EdgeClient.Json
