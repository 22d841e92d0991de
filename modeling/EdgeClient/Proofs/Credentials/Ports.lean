import EdgeClient.Proofs.Credentials.RoundTrip
import EdgeClient.Proofs.Json.Scaling

/-!
# Which numbers are ports

The port of a document is a number, and a number counts as what it is worth in floating point
(`portOf?_number_eq_some_iff`). So a number very close to a port is taken for it, though it is not
whole. How close that is, and that nothing else goes wrong, is `port_follows_value`: a port is stored
exactly as it is written, what is within a part in `2 ^ 55` of it is stored as that port, and what is
further away than a part in `2 ^ 51` is not. A number of up to 15 digits is never mistaken.
-/

namespace EdgeClient

/-! ## Looking members up -/

theorem Json.readable_of_get? {depth : ℕ} {members : List (String × Json)} {name : String}
    {value : Json} (h : Json.MembersReadable depth members)
    (hget : Json.get? members name = some value) : value.IsReadable depth := by
  obtain ⟨front, back, hsplit, -⟩ := List.lookup_eq_some_iff.mp hget
  have hmem : (name, value) ∈ members.reverse := by
    rw [hsplit]
    exact List.mem_append_right _ List.mem_cons_self
  exact Json.membersReadable_iff.mp h _ (List.mem_reverse.mp hmem)

theorem Json.get?_filter_ne (members : List (String × Json)) (omitted name : String) :
    Json.get? (members.filter fun member => member.1 != omitted) name =
      if name = omitted then none else Json.get? members name := by
  rw [Json.get?, Json.get?, ← List.filter_reverse]
  generalize members.reverse = members
  induction members with
  | nil => simp
  | cons member members ih =>
    obtain ⟨name', value⟩ := member
    by_cases homitted : name' = omitted
    · rw [List.filter_cons_of_neg (by simp [homitted]), ih, List.lookup_cons]
      by_cases hname : name = omitted
      · rw [if_pos hname, if_pos hname]
      · have hother : (name == name') = false := by simp [homitted, hname]
        rw [if_neg hname, if_neg hname, hother]
    · rw [List.filter_cons_of_pos (by simp [homitted]), List.lookup_cons, List.lookup_cons]
      by_cases hname : name = name'
      · rw [hname, beq_self_eq_true, if_neg homitted]
      · have hother : (name == name') = false := by simp [hname]
        rw [hother]
        exact ih

namespace Credentials

/-! ## What is a port -/

/-- Whether a number is one of a port: it has sixteen bits, and zero is none. -/
def IsPort (p : ℕ) : Prop := 1 ≤ p ∧ p ≤ 65535

theorem toNat_of_isPort {p : ℕ} (h : IsPort p) : (UInt16.ofNat p).toNat = p := by
  have hsize : p < UInt16.size := by
    rw [UInt16.size]
    exact Nat.lt_succ_of_le h.2
  exact UInt16.toNat_ofNat_of_lt' hsize

/-- A number is taken for the port that it is worth. -/
theorem portOf?_number_eq_some_iff {n : NumberLiteral} {port : UInt16} :
    portOf? (.number n) = some port ↔
      IsPort port.toNat ∧ n.worth? = some (port.toNat : ℚ) := by
  constructor
  · intro h
    obtain ⟨n', whole, hn, hnegative, hwhole, hrange, rfl⟩ := portOf?_eq_some h
    obtain rfl : n = n' := by injection hn
    obtain ⟨x, hx, hvalue⟩ := Option.bind_eq_some_iff.mp hwhole
    rw [toNat_of_isPort hrange]
    exact ⟨hrange, (NumberLiteral.worth?_eq_some_iff hrange.1).mpr
      ⟨hnegative, x, hx, Dyadic.whole?_eq_some_iff.mp hvalue⟩⟩
  · rintro ⟨hport, hworth⟩
    obtain ⟨hnegative, x, hx, hvalue⟩ := (NumberLiteral.worth?_eq_some_iff hport.1).mp hworth
    have hnot : ¬ n.negative = true := by rw [hnegative]; decide
    have hrange : 1 ≤ port.toNat ∧ port.toNat ≤ 65535 := hport
    simp only [portOf?, if_neg hnot, hx, Option.bind_some, Dyadic.whole?_eq_some_iff.mpr hvalue,
      if_pos hrange, UInt16.ofNat_toNat]

theorem portOf?_of_isPort {n : NumberLiteral} {p : ℕ} (h : IsPort p)
    (hworth : n.worth? = some (p : ℚ)) : portOf? (.number n) = some (UInt16.ofNat p) := by
  have hnat := toNat_of_isPort h
  exact portOf?_number_eq_some_iff.mpr ⟨by rwa [hnat], by rw [hnat]; exact hworth⟩

/-! ## Documents with a port -/

/-- The members that are left when the port is taken out, all of that name. -/
def withoutPort (members : Members) : Members :=
  members.filter fun member => member.1 != "port"

/-- Whether a document has a number for the port, and gives some credentials without it. -/
structure GivesPort (text : String) (n : NumberLiteral) (c : Credentials) : Prop where
  document : ∃ members, (Json.object members).IsWrittenAs text ∧
    Json.get? members "port" = some (.number n) ∧ ofMembers (withoutPort members) = .ok c

theorem ofMembers_of_port {members : Members} {n : NumberLiteral} {c : Credentials}
    (hport : Json.get? members "port" = some (.number n))
    (hrest : ofMembers (withoutPort members) = .ok c) :
    ofMembers members = match portOf? (.number n) with
      | some port => .ok { c with port := some port }
      | none => .error .invalidPort := by
  have hget : ∀ name, name ≠ "port" →
      Json.get? (withoutPort members) name = Json.get? members name := by
    intro name hne
    rw [withoutPort, Json.get?_filter_ne, if_neg hne]
  have hstring : ∀ name, name ≠ "port" →
      readString (withoutPort members) name = readString members name := by
    intro name hne
    rw [readString, readString, hget name hne]
  cases hvalue : portOf? (.number n) with
  | none =>
    have hread : readPort members = .error .invalidPort := by
      rw [readPort, hport]
      simp only [hvalue]
    rw [ofMembers, hread]
    rfl
  | some port =>
    have hread : readPort members = .ok (some port) := by
      rw [readPort, hport]
      simp only [hvalue]
    have hc := ofMembers_eq_ok_iff.mp hrest
    refine ofMembers_eq_ok_iff.mpr ⟨hread, ?_, ?_, ?_, ?_, ?_, ?_⟩
    · have huser := hc.user
      rwa [readUser, hget "user" (by decide)] at huser
    · obtain ⟨host, hhost, hfilter⟩ := hc.host
      exact ⟨host, (hstring "host" (by decide)).symm.trans hhost, hfilter⟩
    · exact (hstring "database" (by decide)).symm.trans hc.database
    · exact (hstring "password" (by decide)).symm.trans hc.password
    · exact (hstring "tls_cert_data" (by decide)).symm.trans hc.tlsCertData
    · have hsecurity := hc.tlsSecurity
      rw [readSecurity, readBool, hget "tls_verify_hostname" (by decide),
        hstring "tls_security" (by decide)] at hsecurity
      exact hsecurity

theorem ofText_of_givesPort {text : String} {n : NumberLiteral} {c : Credentials}
    (h : GivesPort text n c) : (n.WellFormed ∧ n.magnitude?.isSome = true) ∧
      ofText text = match portOf? (.number n) with
        | some port => .ok { c with port := some port }
        | none => .error (.invalid .invalidPort) := by
  obtain ⟨members, htext, hport, hrest⟩ := h.document
  refine ⟨Json.readable_of_get? htext.readable.2 hport, ?_⟩
  rw [ofText, Json.read?_eq_some_iff.mpr htext]
  simp only [ofMembers_of_port hport hrest]
  cases portOf? (.number n) with
  | none => rfl
  | some port => rfl

/-- The document of a user and a port, with the spelling of its number. -/
def portDocument (user : String) (number : List Char) : String :=
  String.ofList ('\x7b' :: (Json.quote "user" ++ (": ".toList ++ (Json.quote user ++
    (',' :: ' ' :: (Json.quote "port" ++ (": ".toList ++ (number ++ ['\x7d']))))))))

theorem givesPort_portDocument (user : String) {n : NumberLiteral} {number : List Char}
    (hformed : n.WellFormed) (hspells : n.Spells number) (hsome : n.magnitude?.isSome = true) :
    GivesPort (portDocument user number) n { user := user } where
  document := by
    refine ⟨[("user", .string user), ("port", .number n)], ⟨?_, by decide, ?_⟩, rfl, rfl⟩
    · have hspace : Json.Scan.isSpace ' ' = true := by decide
      have hend : Json.Delimits ['\x7d'] := Json.delimits_cons [] (by decide)
      have hport := Json.tokenises_name "port"
        (.number hformed hspells hsome hend.number (.sign .closeObject .nil))
      have huser := Json.tokenises_name "user"
        (Json.tokenises_quote user (.sign .comma (.space hspace hport)))
      rw [portDocument, String.toList_ofList]
      exact .sign .openObject huser
    · exact ⟨trivial, ⟨hformed, hsome⟩, trivial⟩

/-! ## Which port is stored -/

/-- Whether a document is taken to have the port `x`, with nothing lost: a port is stored, and what is
no port is refused. -/
structure ReadsExactly (text : String) (x : ℚ) (c : Credentials) : Prop where
  stored : ∀ p, IsPort p → x = p → ofText text = .ok { c with port := some (UInt16.ofNat p) }
  refused : (∀ p, IsPort p → x ≠ p) → ofText text = .error (.invalid .invalidPort)

variable {text : String} {n : NumberLiteral} {c : Credentials} {p : ℕ}

/-- Of the number that a document has for the port counts what it is worth, and that exactly. -/
theorem exists_readsExactly (h : GivesPort text n c) :
    ∃ x, n.worth? = some x ∧ ReadsExactly text x c := by
  obtain ⟨⟨-, hsome⟩, hread⟩ := ofText_of_givesPort h
  obtain ⟨y, hy⟩ := Option.isSome_iff_exists.mp hsome
  have hworth : n.worth? = some (if n.negative then -y.value else y.value) := by
    rw [NumberLiteral.worth?, hy]
    rfl
  generalize (if n.negative then -y.value else y.value) = x at hworth
  refine ⟨x, hworth, fun p hp hx => ?_, fun hno => ?_⟩
  · rw [portOf?_of_isPort hp (hx ▸ hworth)] at hread
    exact hread
  · have hnone : portOf? (.number n) = none := by
      refine Option.eq_none_iff_forall_not_mem.mpr fun port hport => ?_
      obtain ⟨hrange, hport⟩ := portOf?_number_eq_some_iff.mp hport
      exact hno _ hrange (Option.some.inj (hworth.symm.trans hport))
    rw [hnone] at hread
    exact hread

theorem stored_of_close (h : GivesPort text n c) (hp : IsPort p)
    (hclose : |n.exactValue - p| * 2 ^ 55 ≤ p) :
    ofText text = .ok { c with port := some (UInt16.ofNat p) } := by
  obtain ⟨⟨hformed, -⟩, -⟩ := ofText_of_givesPort h
  obtain ⟨x, hx, hexact⟩ := exists_readsExactly h
  have hworth := NumberLiteral.worth?_of_close hformed hp.1 (Nat.lt_succ_of_le hp.2) hclose
  exact hexact.stored p hp (Option.some.inj (hx.symm.trans hworth))

/-- What is not refused is stored as a port that it is close to. -/
theorem refused_or_close (h : GivesPort text n c) :
    ofText text = .error (.invalid .invalidPort) ∨ ∃ p, IsPort p ∧
      |n.exactValue - p| * 2 ^ 51 ≤ p ∧
        ofText text = .ok { c with port := some (UInt16.ofNat p) } := by
  obtain ⟨⟨hformed, -⟩, -⟩ := ofText_of_givesPort h
  obtain ⟨x, hx, hexact⟩ := exists_readsExactly h
  by_cases hport : ∃ p : ℕ, IsPort p ∧ x = p
  · right
    obtain ⟨p, hp, rfl⟩ := hport
    exact ⟨p, hp, NumberLiteral.error_of_worth? hformed hx hp.1 (Nat.lt_succ_of_le hp.2),
      hexact.stored p hp rfl⟩
  · exact Or.inl (hexact.refused fun p hp hxp => hport ⟨p, hp, hxp⟩)

theorem readsExactly_of_short {d : ℕ} {e : ℤ} (h : GivesPort text n c) (hd : d < 10 ^ 15)
    (hvalue : |n.exactValue| = d * 10 ^ e) : ReadsExactly text n.exactValue c where
  stored p hp hx := by
    refine stored_of_close h hp ?_
    rw [hx, sub_self, abs_zero, zero_mul]
    positivity
  refused hno := by
    rcases refused_or_close h with hrefused | ⟨p, hp, herror, -⟩
    · exact hrefused
    · have heq := NumberLiteral.eq_of_error hd hvalue hp.1 (Nat.lt_succ_of_le hp.2) herror
      exact absurd heq (hno p hp)

/-- Any number may be given as the port. What counts is what it is worth in floating point, and that
follows the number that is written: close to a port it is that port, further away it is refused, and a
number of up to 15 digits has to be the port itself. -/
theorem port_follows_value :
    (∀ user n number, n.WellFormed → n.Spells number → n.magnitude?.isSome = true →
      GivesPort (portDocument user number) n { user := user }) ∧
    ∀ text n c, GivesPort text n c →
      (∃ x, n.worth? = some x ∧ ReadsExactly text x c) ∧
      (∀ p, IsPort p → |n.exactValue - p| * 2 ^ 55 ≤ p →
        ofText text = .ok { c with port := some (UInt16.ofNat p) }) ∧
      (ofText text = .error (.invalid .invalidPort) ∨ ∃ p, IsPort p ∧
        |n.exactValue - p| * 2 ^ 51 ≤ p ∧
          ofText text = .ok { c with port := some (UInt16.ofNat p) }) ∧
      ∀ (d : ℕ) (e : ℤ), d < 10 ^ 15 → |n.exactValue| = d * 10 ^ e →
        ReadsExactly text n.exactValue c :=
  ⟨fun user _ _ hformed hspells hsome => givesPort_portDocument user hformed hspells hsome,
    fun _ _ _ h => ⟨exists_readsExactly h, fun _ hp hclose => stored_of_close h hp hclose,
      refused_or_close h, fun _ _ hd hvalue => readsExactly_of_short h hd hvalue⟩⟩

/-- The number `6.5535E+4`. -/
def largestPort : NumberLiteral :=
  { whole := [6], fraction := [5, 5, 3, 5], exponent := some (false, [4]) }

theorem port_follows_value_largestPort :
    largestPort.Spells "6.5535E+4".toList ∧
      GivesPort (portDocument "u" "6.5535E+4".toList) largestPort { user := "u" } ∧
      |largestPort.exactValue| = 65535 * 10 ^ (0 : ℤ) ∧
      ofText (portDocument "u" "6.5535E+4".toList) = .ok { user := "u", port := some 65535 } := by
  have hvalue : largestPort.exactValue = 65535 := by
    norm_num [NumberLiteral.exactValue, NumberLiteral.exactMagnitude, largestPort,
      NumberLiteral.valueOf, NumberLiteral.power]
  have hmagnitude : |largestPort.exactValue| = 65535 * 10 ^ (0 : ℤ) := by
    rw [hvalue]
    norm_num
  have hread : NumberLiteral.ofChars? "6.5535E+4".toList = some largestPort := by decide
  obtain ⟨hformed, hspells⟩ := NumberLiteral.ofChars?_eq_some_iff.mp hread
  have hport : IsPort 65535 := ⟨by decide, by decide⟩
  have hworth : largestPort.worth? = some ((65535 : ℕ) : ℚ) := by
    refine NumberLiteral.worth?_of_close hformed hport.1 (by decide) ?_
    rw [hvalue]
    norm_num
  obtain ⟨hgiven, hfollows⟩ := port_follows_value
  have hdocument := hgiven "u" largestPort _ hformed hspells
    (NumberLiteral.isSome_of_worth? hworth)
  obtain ⟨-, -, -, hshort⟩ := hfollows _ _ _ hdocument
  exact ⟨hspells, hdocument, hmagnitude,
    (hshort 65535 0 (by decide) hmagnitude).stored 65535 hport (by rw [hvalue]; rfl)⟩

/-- The number `65535.00000000000001`. -/
def nearlyPort : NumberLiteral :=
  { whole := [6, 5, 5, 3, 5], fraction := [0, 0, 0, 0, 0, 0, 0, 0, 0, 0, 0, 0, 0, 1] }

/-- A document that has it for its port. -/
def nearlyPortDocument : String := "\x7b\"user\": \"u\", \"port\": 65535.00000000000001\x7d"

/-- A number that is no port is stored as the port that it is rounded to. -/
theorem nearlyPort_is_stored :
    GivesPort nearlyPortDocument nearlyPort { user := "u" } ∧
      (∀ p : ℕ, nearlyPort.exactValue ≠ p) ∧
      ofText nearlyPortDocument = .ok { user := "u", port := some 65535 } ∧
      ¬ ReadsExactly nearlyPortDocument nearlyPort.exactValue { user := "u" } := by
  have hvalue : nearlyPort.exactValue = 65535 + 1 / 10 ^ 14 := by
    norm_num [NumberLiteral.exactValue, NumberLiteral.exactMagnitude, nearlyPort,
      NumberLiteral.valueOf, NumberLiteral.power]
  have hclose : |nearlyPort.exactValue - (65535 : ℕ)| * 2 ^ 55 ≤ (65535 : ℕ) := by
    rw [hvalue]
    norm_num
  have hnot : ∀ p : ℕ, nearlyPort.exactValue ≠ p := by
    intro p hp
    have hscaled : (p : ℚ) * 10 ^ 14 = (6553500000000000001 : ℕ) := by
      rw [← hp, hvalue]
      norm_num
    have hnat : p * 10 ^ 14 = 6553500000000000001 := by exact_mod_cast hscaled
    omega
  have hread : NumberLiteral.ofChars? "65535.00000000000001".toList = some nearlyPort := by decide
  obtain ⟨hformed, hspells⟩ := NumberLiteral.ofChars?_eq_some_iff.mp hread
  have hport : IsPort 65535 := ⟨by decide, by decide⟩
  have hworth := NumberLiteral.worth?_of_close hformed hport.1 (by decide) hclose
  have hdocument : GivesPort nearlyPortDocument nearlyPort { user := "u" } := by
    have htext : nearlyPortDocument = portDocument "u" "65535.00000000000001".toList := by decide
    rw [htext]
    exact givesPort_portDocument "u" hformed hspells (NumberLiteral.isSome_of_worth? hworth)
  have hstored := stored_of_close hdocument hport hclose
  refine ⟨hdocument, hnot, hstored, fun hexact => ?_⟩
  have hrefused := hexact.refused fun p _ => hnot p
  rw [hstored] at hrefused
  cases hrefused

end Credentials

end EdgeClient
