import EdgeClient.Proofs.Scram.Strings
import EdgeClient.Proofs.Text.Base64
import EdgeClient.Scram.Conversation

/-!
# What a step of a conversation does

Each stage of a conversation has one kind of successful step, and `Conversation.step_ok` says all
there is to know about it. Behind the second stage stands the reading of the first server string:
of every attribute it is the last one that counts, which `readServerFirst_ok` states without the
loop over the parts.
-/

namespace EdgeClient.Scram

/-! ## The first server string -/

/-- The last value of an attribute in a string. -/
def lastValue (letter : Char) (text : Chars) : Option Chars :=
  ((parts text).filterMap (valueOf letter)).getLast?

theorem entry_mem_parts {letter : Char} {text value : Chars}
    (h : lastValue letter text = some value) : entry letter value ∈ parts text := by
  obtain ⟨part, hpart, hvalue⟩ := List.mem_filterMap.mp (List.mem_of_getLast? h)
  rwa [← valueOf_eq_some hvalue]

namespace ServerFirst

/-- All that can become of a part when it is taken in. -/
inductive PartRead (seen : ServerFirst) : Chars → Except AuthError ServerFirst → Prop where
  | nonce (value : Chars) : PartRead seen (entry 'r' value) (.ok { seen with nonce := some value })
  | salt {value : Chars} {salt : Bytes} : Base64.decode value = some salt →
      PartRead seen (entry 's' value) (.ok { seen with salt := some salt })
  | iterations {value : Chars} {count : Nat} : number? value = some count →
      PartRead seen (entry 'i' value) (.ok { seen with iterations := some count })
  | skipped {part : Chars} : (∀ letter ∈ ['r', 's', 'i', 'm', 'e'], valueOf letter part = none) →
      PartRead seen part (.ok seen)
  | noSalt {value : Chars} : Base64.decode value = none →
      PartRead seen (entry 's' value) (.error (.malformed .saltEncoding))
  | noNumber {value : Chars} : number? value = none →
      PartRead seen (entry 'i' value) (.error (.malformed .iterationSyntax))
  | extension (value : Chars) :
      PartRead seen (entry 'm' value) (.error (.malformed .mandatoryExtension))
  | rejection (value : Chars) :
      PartRead seen (entry 'e' value) (.error (.rejected (String.ofList value)))

theorem partRead (seen : ServerFirst) (part : Chars) :
    PartRead seen part (seen.readPart part) := by
  unfold readPart
  cases hr : valueOf 'r' part with
  | some value =>
    obtain rfl := valueOf_eq_some hr
    exact .nonce value
  | none =>
    cases hs : valueOf 's' part with
    | some value =>
      obtain rfl := valueOf_eq_some hs
      cases hd : Base64.decode value with
      | none => simpa only [hd] using PartRead.noSalt hd
      | some salt => simpa only [hd] using PartRead.salt hd
    | none =>
      cases hi : valueOf 'i' part with
      | some value =>
        obtain rfl := valueOf_eq_some hi
        cases hn : number? value with
        | none => simpa only [hn] using PartRead.noNumber hn
        | some count => simpa only [hn] using PartRead.iterations hn
      | none =>
        cases hm : valueOf 'm' part with
        | some value =>
          obtain rfl := valueOf_eq_some hm
          exact .extension value
        | none =>
          cases he : valueOf 'e' part with
          | some value =>
            obtain rfl := valueOf_eq_some he
            exact .rejection value
          | none => exact .skipped (by simp [hr, hs, hi, hm, he])

/-- All that a part can do when it is taken in without an error. -/
theorem readPart_ok {seen seen' : ServerFirst} {part : Chars}
    (h : seen.readPart part = .ok seen') :
    (∃ value, part = entry 'r' value ∧ seen' = { seen with nonce := some value }) ∨
    (∃ value salt, part = entry 's' value ∧ Base64.decode value = some salt ∧
      seen' = { seen with salt := some salt }) ∨
    (∃ value count, part = entry 'i' value ∧ number? value = some count ∧
      seen' = { seen with iterations := some count }) ∨
    ((∀ letter ∈ ['r', 's', 'i', 'm', 'e'], valueOf letter part = none) ∧ seen' = seen) := by
  have hread := partRead seen part
  rw [h] at hread
  cases hread with
  | nonce value => exact Or.inl ⟨value, rfl, rfl⟩
  | salt hd => exact Or.inr (Or.inl ⟨_, _, rfl, hd, rfl⟩)
  | iterations hn => exact Or.inr (Or.inr (Or.inl ⟨_, _, rfl, hn, rfl⟩))
  | skipped hnone => exact Or.inr (Or.inr (Or.inr ⟨hnone, rfl⟩))

/-- A field holds what `read` makes of the attributes with a letter: a part with that letter
replaces the field, all other parts leave it alone. -/
def Tracks {α : Type} (field : ServerFirst → Option α) (letter : Char) (read : Chars → Option α) :
    Prop :=
  ∀ seen part seen', readPart seen part = .ok seen' →
    (∃ value x, valueOf letter part = some value ∧ read value = some x ∧ field seen' = some x) ∨
    (valueOf letter part = none ∧ field seen' = field seen)

theorem tracks_nonce : Tracks nonce 'r' some := by
  intro seen part seen' h
  rcases readPart_ok h with ⟨v, rfl, rfl⟩ | ⟨v, x, rfl, -, rfl⟩ | ⟨v, x, rfl, -, rfl⟩ | ⟨hn, rfl⟩
  · exact Or.inl ⟨v, v, valueOf_entry _ _, rfl, rfl⟩
  · exact Or.inr ⟨valueOf_entry_of_ne (by decide) v, rfl⟩
  · exact Or.inr ⟨valueOf_entry_of_ne (by decide) v, rfl⟩
  · exact Or.inr ⟨hn _ (by simp), rfl⟩

theorem tracks_salt : Tracks salt 's' Base64.decode := by
  intro seen part seen' h
  rcases readPart_ok h with ⟨v, rfl, rfl⟩ | ⟨v, x, rfl, hx, rfl⟩ | ⟨v, x, rfl, -, rfl⟩ | ⟨hn, rfl⟩
  · exact Or.inr ⟨valueOf_entry_of_ne (by decide) v, rfl⟩
  · exact Or.inl ⟨v, x, valueOf_entry _ _, hx, rfl⟩
  · exact Or.inr ⟨valueOf_entry_of_ne (by decide) v, rfl⟩
  · exact Or.inr ⟨hn _ (by simp), rfl⟩

theorem tracks_iterations : Tracks iterations 'i' number? := by
  intro seen part seen' h
  rcases readPart_ok h with ⟨v, rfl, rfl⟩ | ⟨v, x, rfl, -, rfl⟩ | ⟨v, x, rfl, hx, rfl⟩ | ⟨hn, rfl⟩
  · exact Or.inr ⟨valueOf_entry_of_ne (by decide) v, rfl⟩
  · exact Or.inr ⟨valueOf_entry_of_ne (by decide) v, rfl⟩
  · exact Or.inl ⟨v, x, valueOf_entry _ _, hx, rfl⟩
  · exact Or.inr ⟨hn _ (by simp), rfl⟩

/-- A field that tracks an attribute holds its last value in the end. The induction carries all
values that were read, since the last one is known only at the end of the string. -/
theorem Tracks.readParts {α : Type} {field : ServerFirst → Option α} {letter : Char}
    {read : Chars → Option α} (ht : Tracks field letter read) {ps : List Chars}
    {seen seen' : ServerFirst} (h : readParts ps seen = .ok seen') :
    ∃ xs : List α, (ps.filterMap (valueOf letter)).map read = xs.map some ∧
      field seen' = xs.getLast?.or (field seen) := by
  induction ps generalizing seen with
  | nil =>
    obtain rfl := Except.ok.inj h
    exact ⟨[], rfl, rfl⟩
  | cons part rest ih =>
    rw [ServerFirst.readParts] at h
    cases hp : seen.readPart part with
    | error e => simp [hp] at h
    | ok seen₁ =>
      simp only [hp] at h
      obtain ⟨xs, hxs, hlast⟩ := ih h
      rcases ht seen part seen₁ hp with ⟨value, x, hv, hx, hf⟩ | ⟨hv, hf⟩
      · refine ⟨x :: xs, ?_, ?_⟩
        · rw [List.filterMap_cons_some hv, List.map_cons, List.map_cons, hx, hxs]
        · rw [hlast, hf, List.getLast?_cons]
          cases xs.getLast? <;> rfl
      · refine ⟨xs, ?_, ?_⟩
        · rw [List.filterMap_cons_none hv, hxs]
        · rw [hlast, hf]

/-- What a field holds after a whole string. -/
theorem Tracks.lastValue {α : Type} {field : ServerFirst → Option α} {letter : Char}
    {read : Chars → Option α} (ht : Tracks field letter read) {text : Chars} {seen : ServerFirst}
    (h : ServerFirst.readParts (parts text) {} = .ok seen) (h0 : field {} = none) :
    field seen = (Scram.lastValue letter text).bind read := by
  obtain ⟨xs, hxs, hlast⟩ := ht.readParts h
  have hm := congrArg List.getLast? hxs
  rw [List.getLast?_map, List.getLast?_map] at hm
  rw [hlast, h0, Option.or_none, Scram.lastValue]
  cases hv : ((parts text).filterMap (valueOf letter)).getLast? with
  | none =>
    rw [hv, Option.map_none] at hm
    rw [Option.map_eq_none_iff.mp hm.symm]
    rfl
  | some value =>
    rw [hv] at hm
    cases hx : xs.getLast? with
    | none => simp [hx] at hm
    | some x => simpa [hx] using hm.symm

/-- What passes the check is complete, within bounds, and extends the client's nonce. -/
theorem check_ok {seen : ServerFirst} {clientNonce : Chars} {challenge : Challenge}
    (h : seen.check clientNonce = .ok challenge) :
    seen.nonce = some challenge.nonce ∧ seen.salt = some challenge.salt ∧
    seen.iterations = some challenge.iterations ∧
    0 < challenge.iterations ∧ challenge.iterations ≤ maxIterations ∧
    clientNonce <+: challenge.nonce ∧ challenge.nonce.length ≠ clientNonce.length := by
  unfold check at h
  cases hn : seen.nonce with
  | none => simp [hn] at h
  | some nonce =>
    cases hs : seen.salt with
    | none => simp [hn, hs] at h
    | some salt =>
      cases hi : seen.iterations with
      | none => simp [hn, hs, hi] at h
      | some iterations =>
        simp only [hn, hs, hi] at h
        split at h
        · exact absurd h (by simp)
        · rename_i h0
          split at h
          · exact absurd h (by simp)
          · rename_i h1
            split at h
            · rename_i hnonce
              obtain rfl := Except.ok.inj h
              exact ⟨rfl, rfl, rfl, Nat.pos_of_ne_zero h0, Nat.le_of_not_lt h1,
                List.isPrefixOf_iff_prefix.mp hnonce.1, hnonce.2⟩
            · exact absurd h (by simp)

end ServerFirst

theorem readServerFirst_ok {clientNonce text : Chars} {challenge : Challenge}
    (h : readServerFirst clientNonce text = .ok challenge) :
    lastValue 'r' text = some challenge.nonce ∧
    (lastValue 's' text).bind Base64.decode = some challenge.salt ∧
    (lastValue 'i' text).bind number? = some challenge.iterations ∧
    0 < challenge.iterations ∧ challenge.iterations ≤ maxIterations ∧
    clientNonce <+: challenge.nonce ∧ challenge.nonce.length ≠ clientNonce.length := by
  unfold readServerFirst at h
  cases hp : ServerFirst.readParts (parts text) {} with
  | error e => simp [hp] at h
  | ok seen =>
    simp only [hp] at h
    have hr := ServerFirst.tracks_nonce.lastValue hp rfl
    have hs := ServerFirst.tracks_salt.lastValue hp rfl
    have hi := ServerFirst.tracks_iterations.lastValue hp rfl
    rw [Option.bind_fun_some] at hr
    rw [← hr, ← hs, ← hi]
    exact ServerFirst.check_ok h

theorem maxIterations_eq : maxIterations = 2 ^ 20 := by decide

/-! ## Strings that no client answers -/

/-- A part of a first server string over which the client gives up at once. -/
inductive FlawedPart : Chars → Prop where
  | extension (value : Chars) : FlawedPart (entry 'm' value)
  | rejection (value : Chars) : FlawedPart (entry 'e' value)
  | salt {value : Chars} : Base64.decode value = none → FlawedPart (entry 's' value)
  | iterations {value : Chars} : number? value = none → FlawedPart (entry 'i' value)

/-- What is wrong with a first server string: one of its parts; or an attribute is missing; or the
number of rounds is out of bounds; or the nonce does not strictly extend the client's. -/
inductive Flawed (clientNonce text : Chars) : Prop where
  | part {part : Chars} : part ∈ parts text → FlawedPart part → Flawed clientNonce text
  | missing {letter : Char} : letter ∈ ['r', 's', 'i'] → lastValue letter text = none →
      Flawed clientNonce text
  | rounds {count : Nat} : (lastValue 'i' text).bind number? = some count →
      count = 0 ∨ 2 ^ 20 < count → Flawed clientNonce text
  | nonce {nonce : Chars} : lastValue 'r' text = some nonce →
      ¬ (clientNonce <+: nonce ∧ nonce ≠ clientNonce) → Flawed clientNonce text

theorem FlawedPart.readPart {part : Chars} (hf : FlawedPart part) (seen : ServerFirst) :
    ∃ e, seen.readPart part = .error e := by
  cases hf with
  | extension value | rejection value => exact ⟨_, rfl⟩
  | salt hd => exact ⟨.malformed .saltEncoding, by simp [ServerFirst.readPart, entry, valueOf, hd]⟩
  | iterations hn =>
    exact ⟨.malformed .iterationSyntax, by simp [ServerFirst.readPart, entry, valueOf, hn]⟩

theorem FlawedPart.readParts {part : Chars} (hf : FlawedPart part) {ps : List Chars}
    (hmem : part ∈ ps) (seen : ServerFirst) : ∃ e, ServerFirst.readParts ps seen = .error e := by
  induction ps generalizing seen with
  | nil => exact absurd hmem List.not_mem_nil
  | cons p rest ih =>
    rw [ServerFirst.readParts]
    rcases List.mem_cons.mp hmem with rfl | hrest
    · obtain ⟨e, he⟩ := hf.readPart seen
      exact ⟨e, by rw [he]⟩
    · cases seen.readPart p with
      | error e => exact ⟨e, rfl⟩
      | ok seen => exact ih hrest seen

/-- A flawed string is no challenge that could be answered. -/
theorem Flawed.readServerFirst_ne {clientNonce text : Chars} (hf : Flawed clientNonce text)
    (challenge : Challenge) : readServerFirst clientNonce text ≠ .ok challenge := by
  intro hok
  obtain ⟨hr, hs, hi, hpos, hmax, hextends, hlonger⟩ := readServerFirst_ok hok
  cases hf with
  | part hmem hpart =>
    obtain ⟨e, he⟩ := hpart.readParts hmem {}
    rw [readServerFirst, he] at hok
    exact absurd hok (by simp)
  | missing hletter hnone =>
    simp only [List.mem_cons, List.not_mem_nil, or_false] at hletter
    rcases hletter with rfl | rfl | rfl
    · exact absurd (hnone.symm.trans hr) (by simp)
    · exact absurd hs (by simp [hnone])
    · exact absurd hi (by simp [hnone])
  | rounds hcount hbad =>
    obtain rfl := Option.some.inj (hcount.symm.trans hi)
    have hbound := maxIterations_eq
    omega
  | nonce hnonce hbad =>
    obtain rfl := Option.some.inj (hnonce.symm.trans hr)
    exact hbad ⟨hextends, fun heq => hlonger (congrArg List.length heq)⟩

/-! ## The last server string -/

/-- The signature that the client looks for is the first one in the string, and it is compared as a
whole: each signature has only one base 64 form. -/
theorem verify_ok_iff {secrets : Secrets} {text : Chars} :
    Conversation.verify secrets text = .ok () ↔
      valueOf 'e' text = none ∧ (parts text).findSome? (valueOf 'v') =
        some (Base64.encode (serverSignature secrets.saltedPassword secrets.authMessage)) := by
  unfold Conversation.verify readServerFinal
  cases he : valueOf 'e' text with
  | some reason => simp
  | none =>
    cases hv : (parts text).findSome? (valueOf 'v') with
    | none => simp
    | some value =>
      simp only [true_and, Option.some.injEq]
      rw [← Base64.decode_eq_some_iff]
      cases hd : Base64.decode value with
      | none => simp
      | some signature =>
        by_cases hs : signature = serverSignature secrets.saltedPassword secrets.authMessage
        · simp [hs]
        · simp [hs]

namespace Conversation

/-! ## Answers -/

/-- The client's answer to a first server string: what it keeps, and what it says. -/
theorem answer_ok {c : Conversation} {serverFirst reply : Chars} {secrets : Secrets}
    (h : c.answer serverFirst = .ok (secrets, reply)) :
    ∃ challenge, readServerFirst c.clientNonce serverFirst = .ok challenge ∧
      secrets.saltedPassword = saltedPassword c.password challenge ∧
      secrets.authMessage =
        authMessage c.firstBare serverFirst (clientFinalWithoutProof challenge.nonce) ∧
      reply = clientFinalWithoutProof challenge.nonce ++ ",p=".toList ++
        Base64.encode (clientProof secrets.saltedPassword secrets.authMessage) := by
  unfold answer at h
  cases hr : readServerFirst c.clientNonce serverFirst with
  | error e => simp [hr] at h
  | ok challenge =>
    simp only [hr, Except.ok.injEq, Prod.mk.injEq] at h
    obtain ⟨rfl, rfl⟩ := h
    exact ⟨challenge, rfl, rfl, rfl, rfl⟩

theorem splitAtLast_clientFinal (nonce : Chars) (proof : Bytes) :
    splitAtLast ",p=".toList
      (clientFinalWithoutProof nonce ++ ",p=".toList ++ Base64.encode proof) =
      some (clientFinalWithoutProof nonce, Base64.encode proof) := by
  have hmark : ",p=".toList = ',' :: ['p', '='] := rfl
  have hm : ',' ∉ ['p', '='] := by decide
  have hcut := splitAtLast_append hm (Base64.comma_notMem_encode proof)
    (clientFinalWithoutProof nonce)
  rw [hmark]
  exact hcut

/-! ## Steps -/

section

variable {c c' : Conversation} {text reply : String}

theorem step_initial (h : c.stage = .initial) (text : String) :
    c.step text = .ok (String.ofList (clientFirst c.user c.clientNonce))
      { c with stage := .awaitingServerFirst } := by
  unfold step
  rw [h]

theorem step_of_answer {secrets : Secrets} {answered : Chars} (h : c.stage = .awaitingServerFirst)
    (ha : c.answer text.toList = .ok (secrets, answered)) :
    c.step text = .ok (String.ofList answered) { c with stage := .awaitingServerFinal secrets } := by
  unfold step
  simp only [h, ha]

theorem step_of_verify {secrets : Secrets} (h : c.stage = .awaitingServerFinal secrets)
    (hv : verify secrets text.toList = .ok ()) :
    c.step text = .ok "" { c with stage := .done secrets } := by
  unfold step
  simp only [h, hv]

/-- Whether a first server string is answered depends on nothing but the string and the client's
nonce. -/
theorem step_of_readServerFirst {challenge : Challenge} (h : c.stage = .awaitingServerFirst)
    (hr : readServerFirst c.clientNonce text.toList = .ok challenge) :
    ∃ reply c', c.step text = .ok reply c' := by
  unfold step answer
  simp only [h, hr]
  exact ⟨_, _, rfl⟩

theorem step_of_readServerFirst_error {e : AuthError} (h : c.stage = .awaitingServerFirst)
    (hr : readServerFirst c.clientNonce text.toList = .error e) : c.step text = .error e c := by
  unfold step answer
  simp only [h, hr]

/-- A flawed string is not answered. -/
theorem step_ne_ok_of_flawed (h : c.stage = .awaitingServerFirst)
    (hf : Flawed c.clientNonce text.toList) : c.step text ≠ .ok reply c' := by
  intro hok
  cases hr : readServerFirst c.clientNonce text.toList with
  | ok challenge => exact hf.readServerFirst_ne challenge hr
  | error e => exact absurd (hok.symm.trans (step_of_readServerFirst_error h hr)) (by simp)

theorem step_awaitingServerFirst (h : c.stage = .awaitingServerFirst)
    (hs : c.step text = .ok reply c') :
    ∃ secrets, c.answer text.toList = .ok (secrets, reply.toList) ∧
      c' = { c with stage := .awaitingServerFinal secrets } := by
  unfold step at hs
  simp only [h] at hs
  cases ha : c.answer text.toList with
  | error e => simp [ha] at hs
  | ok pair =>
    obtain ⟨secrets, chars⟩ := pair
    simp only [ha, EStateM.Result.ok.injEq] at hs
    obtain ⟨rfl, rfl⟩ := hs
    exact ⟨secrets, by rw [String.toList_ofList], rfl⟩

theorem step_awaitingServerFinal {secrets : Secrets} (h : c.stage = .awaitingServerFinal secrets)
    (hs : c.step text = .ok reply c') :
    verify secrets text.toList = .ok () ∧ reply = "" ∧ c' = { c with stage := .done secrets } := by
  unfold step at hs
  simp only [h] at hs
  cases hv : verify secrets text.toList with
  | error e => simp [hv] at hs
  | ok u =>
    simp only [hv, EStateM.Result.ok.injEq] at hs
    obtain ⟨rfl, rfl⟩ := hs
    exact ⟨rfl, rfl, rfl⟩

theorem step_done {secrets : Secrets} (h : c.stage = .done secrets) (text : String) :
    c.step text = .error .finished c := by
  unfold step
  rw [h]

/-- A step that fails leaves the conversation as it was. -/
theorem step_error {e : AuthError} (hs : c.step text = .error e c') : c' = c := by
  unfold step at hs
  split at hs
  · exact absurd hs (by simp)
  · split at hs
    · exact absurd hs (by simp)
    · exact (EStateM.Result.error.inj hs).2.symm
  · split at hs
    · exact absurd hs (by simp)
    · exact (EStateM.Result.error.inj hs).2.symm
  · exact (EStateM.Result.error.inj hs).2.symm

end

end Conversation

end EdgeClient.Scram
