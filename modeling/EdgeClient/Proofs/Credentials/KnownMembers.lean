import EdgeClient.Proofs.Credentials.Ports

/-!
# What credentials depend on

Of a credentials document only the values of eight members count, and only by what they are worth:
two documents that agree on them give the same credentials or the same problem, whatever else is in
them and however they are written. Of several wrong members it is the first in a fixed order that is
reported (`ofText_depends_on_known_members`).

What is wrong with a member is said by `Fault` in terms of the members alone. The reader is a chain of
checks, and each link of it is one member of the order.
-/

namespace EdgeClient

/-! ## Values that are alike -/

/-- Values that differ at most in how they are written: numbers that are worth the same, lists item
by item, and objects by the last value of each name. -/
inductive Json.Alike : Json → Json → Prop where
  | null : Alike .null .null
  | bool (b : Bool) : Alike (.bool b) (.bool b)
  | number {n n' : NumberLiteral} : n.worth? = n'.worth? → Alike (.number n) (.number n')
  | string (s : String) : Alike (.string s) (.string s)
  | array {items items' : List Json} : List.Forall₂ Alike items items' →
      Alike (.array items) (.array items')
  | object {members members' : List (String × Json)} :
      (∀ name, Option.Rel Alike (Json.get? members name) (Json.get? members' name)) →
      Alike (.object members) (.object members')

namespace Credentials

/-! ## Members -/

/-- The members that a document is searched for. -/
inductive Key where
  | port
  | user
  | host
  | database
  | password
  | tlsCertData
  | tlsVerifyHostname
  | tlsSecurity
  deriving DecidableEq

namespace Key

/-- What a document calls the member. -/
def name : Key → String
  | port => "port"
  | user => "user"
  | host => "host"
  | database => "database"
  | password => "password"
  | tlsCertData => "tls_cert_data"
  | tlsVerifyHostname => "tls_verify_hostname"
  | tlsSecurity => "tls_security"

/-- The order in which the members are checked. -/
def all : List Key :=
  [port, user, host, database, password, tlsCertData, tlsVerifyHostname, tlsSecurity]

/-- Whether the member has to be a string: all but the port and the older setting for host names. -/
abbrev IsText (key : Key) : Prop := key ≠ port ∧ key ≠ tlsVerifyHostname

end Key

/-- Whether a level of checking asks for something else than the older setting for host names. -/
inductive Contradicts : TlsSecurity → Bool → Prop where
  | insecure : Contradicts .insecure true
  | noHostVerification : Contradicts .noHostVerification true
  | strict : Contradicts .strict false

/-- What is wrong with a member. -/
inductive Fault (members : Members) : Key → CredentialsProblem → Prop where
  | port {value : Json} : Json.get? members "port" = some value →
      (∀ n p, value = .number n → IsPort p → n.worth? ≠ some (p : ℚ)) →
      Fault members .port .invalidPort
  | noUser : Json.get? members "user" = none → Fault members .user .missingUser
  | notAString {key : Key} {value : Json} : key.IsText →
      Json.get? members key.name = some value → (∀ s, value ≠ .string s) →
      Fault members key (.notAString key.name)
  | notABoolean {value : Json} : Json.get? members "tls_verify_hostname" = some value →
      (∀ b, value ≠ .bool b) → Fault members .tlsVerifyHostname (.notABoolean "tls_verify_hostname")
  | unknownSecurity {name : String} : Json.get? members "tls_security" = some (.string name) →
      (∀ level : TlsSecurity, level.name ≠ name) →
      Fault members .tlsSecurity (.unknownSecurity name)
  | contradictingSecurity {level : TlsSecurity} {verify : Bool} :
      Json.get? members "tls_security" = some (.string level.name) →
      Json.get? members "tls_verify_hostname" = some (.bool verify) → Contradicts level verify →
      Fault members .tlsSecurity (.contradictingSecurity verify level.name)

/-- What is wrong with the first of several members with which something is wrong. -/
inductive FirstFault (members : Members) : List Key → CredentialsProblem → Prop where
  | here {key : Key} {rest : List Key} {problem : CredentialsProblem} :
      Fault members key problem → FirstFault members (key :: rest) problem
  | later {key : Key} {rest : List Key} {problem : CredentialsProblem} :
      (∀ problem', ¬ Fault members key problem') → FirstFault members rest problem →
      FirstFault members (key :: rest) problem

variable {members members' : Members} {problem : CredentialsProblem}

theorem no_firstFault_iff {keys : List Key} :
    (∀ problem, ¬ FirstFault members keys problem) ↔
      ∀ key ∈ keys, ∀ problem, ¬ Fault members key problem := by
  induction keys with
  | nil =>
    refine iff_of_true (fun problem h => ?_) (fun key h => absurd h List.not_mem_nil)
    cases h
  | cons key keys ih =>
    rw [List.forall_mem_cons, ← ih]
    constructor
    · intro h
      have hkey : ∀ problem, ¬ Fault members key problem := fun problem hf => h problem (.here hf)
      exact ⟨hkey, fun problem hf => h problem (.later hkey hf)⟩
    · rintro ⟨hkey, hrest⟩ problem hf
      cases hf with
      | here hf => exact hkey problem hf
      | later _ hf => exact hrest problem hf

theorem firstFault_singleton {key : Key} :
    FirstFault members [key] problem ↔ Fault members key problem := by
  constructor
  · intro h
    cases h with
    | here h => exact h
    | later _ h => cases h
  · exact .here

/-! ## Single checks -/

theorem readPort_eq_error_iff : readPort members = .error problem ↔ Fault members .port problem := by
  constructor
  · intro h
    rw [readPort] at h
    cases hget : Json.get? members "port" with
    | none =>
      rw [hget] at h
      cases h
    | some value =>
      rw [hget] at h
      cases hport : portOf? value with
      | some port =>
        simp only [hport] at h
        cases h
      | none =>
        simp only [hport] at h
        obtain rfl := Except.error.inj h
        refine .port hget fun n p hvalue hp hworth => ?_
        rw [hvalue, portOf?_of_isPort hp hworth] at hport
        cases hport
  · intro h
    cases h with
    | @port value hget hno =>
      have hport : portOf? value = none := by
        cases hport : portOf? value with
        | none => rfl
        | some port =>
          obtain ⟨n, -, hvalue, -⟩ := portOf?_eq_some hport
          rw [hvalue] at hport
          obtain ⟨hp, hworth⟩ := portOf?_number_eq_some_iff.mp hport
          exact absurd hworth (hno n _ hvalue hp)
      rw [readPort, hget]
      simp only [hport]
    | notAString htext => exact absurd rfl htext.1

theorem readUser_eq_error_iff : readUser members = .error problem ↔ Fault members .user problem := by
  constructor
  · intro h
    unfold readUser at h
    split at h
    · cases h
    · rename_i value hno hget
      obtain rfl := Except.error.inj h
      have htext : Key.user.IsText := ⟨by decide, by decide⟩
      exact .notAString htext hget fun s hs => hno s hs
    · rename_i hget
      obtain rfl := Except.error.inj h
      exact .noUser hget
  · intro h
    cases h with
    | noUser hget => rw [readUser, hget]
    | notAString _ hget hno =>
      rw [readUser, show Json.get? members "user" = _ from hget]
      split
      · rename_i s hs
        exact absurd (Option.some.inj hs) (hno s)
      · rfl
      · rename_i hnone
        cases hnone

theorem readString_eq_error_iff {name : String} :
    readString members name = .error problem ↔ problem = .notAString name ∧
      ∃ value, Json.get? members name = some value ∧ ∀ s, value ≠ .string s := by
  constructor
  · intro h
    unfold readString at h
    split at h
    · cases h
    · rename_i value hno hget
      exact ⟨(Except.error.inj h).symm, value, hget, fun s hs => hno s hs⟩
    · cases h
  · rintro ⟨rfl, value, hget, hno⟩
    rw [readString, hget]
    split
    · rename_i s hs
      exact absurd (Option.some.inj hs) (hno s)
    · rfl
    · rename_i hnone
      cases hnone

/-- The checks that a member is a text have their own lemma where there is more to check. -/
theorem readText_eq_error_iff (key : Key) (htext : key.IsText)
    (hother : key ≠ .user ∧ key ≠ .tlsSecurity) :
    readString members key.name = .error problem ↔ Fault members key problem := by
  rw [readString_eq_error_iff]
  constructor
  · rintro ⟨rfl, value, hget, hno⟩
    exact .notAString htext hget hno
  · intro h
    cases h with
    | notAString _ hget hno => exact ⟨rfl, _, hget, hno⟩
    | port => exact absurd rfl htext.1
    | noUser => exact absurd rfl hother.1
    | notABoolean => exact absurd rfl htext.2
    | unknownSecurity | contradictingSecurity => exact absurd rfl hother.2

theorem readBool_eq_error_iff : readBool members "tls_verify_hostname" = .error problem ↔
    Fault members .tlsVerifyHostname problem := by
  constructor
  · intro h
    unfold readBool at h
    split at h
    · cases h
    · rename_i value hno hget
      obtain rfl := Except.error.inj h
      exact .notABoolean hget fun b hb => hno b hb
    · cases h
  · intro h
    cases h with
    | notABoolean hget hno =>
      rw [readBool, hget]
      split
      · rename_i b hb
        exact absurd (Option.some.inj hb) (hno b)
      · rfl
      · rename_i hnone
        cases hnone
    | notAString htext => exact absurd rfl htext.2

theorem ofName?_eq_some_iff {name : String} {level : TlsSecurity} :
    TlsSecurity.ofName? name = some level ↔ level.name = name := by
  constructor
  · intro h
    have hfound := List.find?_some h
    exact beq_iff_eq.mp hfound
  · rintro rfl
    exact ofName?_name level

theorem contradicts_iff {level : TlsSecurity} {verify : Bool} :
    contradicts level verify = true ↔ Contradicts level verify := by
  constructor
  · intro h
    cases level with
    | default => cases h
    | strict =>
      obtain rfl : verify = false := by simpa [contradicts] using h
      exact .strict
    | noHostVerification =>
      obtain rfl : verify = true := h
      exact .noHostVerification
    | insecure =>
      obtain rfl : verify = true := h
      exact .insecure
  · intro h
    cases h with
    | insecure | noHostVerification | strict => rfl

/-! ## The chain of checks -/

/-- A check, and what comes after it if nothing is wrong. -/
theorem bind_eq_error_iff {α β : Type} {x : Except CredentialsProblem α}
    {f : α → Except CredentialsProblem β} {key : Key} {rest : List Key}
    (hx : ∀ {problem}, x = .error problem ↔ Fault members key problem)
    (hf : ∀ a, x = .ok a → ∀ {problem}, f a = .error problem ↔ FirstFault members rest problem) :
    x >>= f = .error problem ↔ FirstFault members (key :: rest) problem := by
  cases x with
  | error first =>
    have hfirst : Fault members key first := hx.mp rfl
    constructor
    · intro h
      obtain rfl := Except.error.inj h
      exact .here hfirst
    · intro h
      cases h with
      | here h =>
        obtain rfl := Except.error.inj (hx.mpr h)
        rfl
      | later hno _ => exact absurd hfirst (hno first)
  | ok a =>
    -- nothing is wrong here, so the first fault is a later one
    have hno : ∀ problem, ¬ Fault members key problem := by
      intro problem h
      cases hx.mpr h
    refine (hf a rfl).trans ⟨.later hno, fun h => ?_⟩
    cases h with
    | here h => exact absurd h (hno _)
    | later _ h => exact h

theorem get?_of_readString {name : String} {value : Option String}
    (h : readString members name = .ok value) :
    Json.get? members name = value.map .string := by
  unfold readString at h
  split at h
  · rename_i hget
    obtain rfl := Except.ok.inj h
    exact hget
  · cases h
  · rename_i hget
    obtain rfl := Except.ok.inj h
    exact hget

theorem get?_of_readBool {name : String} {value : Option Bool}
    (h : readBool members name = .ok value) : Json.get? members name = value.map .bool := by
  unfold readBool at h
  split at h
  · rename_i hget
    obtain rfl := Except.ok.inj h
    exact hget
  · cases h
  · rename_i hget
    obtain rfl := Except.ok.inj h
    exact hget

/-- What can be wrong with a level of checking that is a text. -/
theorem fault_security_iff {name : String} {verify : Option Bool}
    (hname : Json.get? members "tls_security" = some (.string name))
    (hverify : Json.get? members "tls_verify_hostname" = verify.map .bool) :
    Fault members .tlsSecurity problem ↔
      (TlsSecurity.ofName? name = none ∧ problem = .unknownSecurity name) ∨
      ∃ level setting, TlsSecurity.ofName? name = some level ∧ verify = some setting ∧
        contradicts level setting = true ∧ problem = .contradictingSecurity setting name := by
  constructor
  · intro h
    cases h with
    | notAString _ hget hno =>
      exact absurd (Option.some.inj (hget.symm.trans hname)) (hno name)
    | unknownSecurity hget hno =>
      injection hget.symm.trans hname with hstring
      injection hstring with hsame
      subst hsame
      left
      refine ⟨Option.eq_none_iff_forall_not_mem.mpr fun level hlevel => ?_, rfl⟩
      exact hno level (ofName?_eq_some_iff.mp hlevel)
    | @contradictingSecurity level setting hget hbool hcontradicts =>
      injection hget.symm.trans hname with hstring
      injection hstring with hsame
      obtain ⟨setting', hsetting, hbool'⟩ := Option.map_eq_some_iff.mp (hverify.symm.trans hbool)
      injection hbool' with hsame'
      subst hsame hsame'
      exact Or.inr ⟨level, setting', ofName?_eq_some_iff.mpr rfl, hsetting,
        contradicts_iff.mpr hcontradicts, rfl⟩
  · rintro (⟨hnone, rfl⟩ | ⟨level, setting, hlevel, rfl, hcontradicts, rfl⟩)
    · refine .unknownSecurity hname fun level hlevel => ?_
      rw [ofName?_eq_some_iff.mpr hlevel] at hnone
      cases hnone
    · obtain rfl := ofName?_eq_some_iff.mp hlevel
      exact .contradictingSecurity hname hverify (contradicts_iff.mp hcontradicts)

theorem readSecurity_eq_error_iff : readSecurity members = .error problem ↔
    FirstFault members [.tlsVerifyHostname, .tlsSecurity] problem := by
  rw [readSecurity]
  refine bind_eq_error_iff readBool_eq_error_iff fun verify hread => ?_
  intro problem
  rw [firstFault_singleton]
  have hverify := get?_of_readBool hread
  cases hstring : readString members "tls_security" with
  | error first =>
    -- what is no text has no spelling that could be wrong
    obtain ⟨hfirst, value, hget, hno⟩ := readString_eq_error_iff.mp hstring
    constructor
    · intro h
      obtain rfl := Except.error.inj h
      rw [hfirst]
      have htext : Key.tlsSecurity.IsText := ⟨by decide, by decide⟩
      exact .notAString htext hget hno
    · intro h
      cases h with
      | notAString => exact congrArg Except.error hfirst
      | unknownSecurity hname | contradictingSecurity hname =>
        exact absurd (Option.some.inj (hget.symm.trans hname)) (hno _)
  | ok name =>
    have hget := get?_of_readString hstring
    cases name with
    | none =>
      refine iff_of_false (fun h => ?_) fun h => ?_
      · cases h
      · cases h with
        | notAString _ hget' | unknownSecurity hget' | contradictingSecurity hget' =>
          cases hget.symm.trans hget'
    | some name =>
      rw [fault_security_iff hget hverify]
      simp only [bind, Except.bind]
      cases TlsSecurity.ofName? name with
      | none =>
        constructor
        · intro h
          exact Or.inl ⟨rfl, (Except.error.inj h).symm⟩
        · rintro (⟨-, rfl⟩ | ⟨level, setting, hlevel, -⟩)
          · rfl
          · cases hlevel
      | some level =>
        cases verify with
        | none =>
          constructor
          · intro h
            cases h
          · rintro (⟨hnone, -⟩ | ⟨level', setting, -, hsetting, -⟩)
            · cases hnone
            · cases hsetting
        | some setting =>
          by_cases hcontradicts : contradicts level setting = true
          · simp only [if_pos hcontradicts]
            constructor
            · intro h
              exact Or.inr ⟨level, setting, rfl, rfl, hcontradicts, (Except.error.inj h).symm⟩
            · rintro (⟨hnone, -⟩ | ⟨level', setting', -, hsetting, -, rfl⟩)
              · cases hnone
              · obtain rfl := Option.some.inj hsetting
                rfl
          · simp only [if_neg hcontradicts]
            constructor
            · intro h
              cases h
            · rintro (⟨hnone, -⟩ | ⟨level', setting', hlevel, hsetting, hcontradicts', -⟩)
              · cases hnone
              · obtain rfl := Option.some.inj hlevel
                obtain rfl := Option.some.inj hsetting
                exact absurd hcontradicts' hcontradicts

theorem ofMembers_eq_error_iff : ofMembers members = .error problem ↔
    FirstFault members Key.all problem := by
  rw [ofMembers]
  refine bind_eq_error_iff readPort_eq_error_iff fun _ _ {_} => ?_
  refine bind_eq_error_iff readUser_eq_error_iff fun _ _ {_} => ?_
  refine bind_eq_error_iff (readText_eq_error_iff .host (by decide) (by decide)) fun _ _ {_} => ?_
  refine bind_eq_error_iff (readText_eq_error_iff .database (by decide) (by decide))
    fun _ _ {_} => ?_
  refine bind_eq_error_iff (readText_eq_error_iff .password (by decide) (by decide))
    fun _ _ {_} => ?_
  refine bind_eq_error_iff (readText_eq_error_iff .tlsCertData (by decide) (by decide))
    fun _ _ {_} => ?_
  refine Iff.trans ?_ readSecurity_eq_error_iff
  -- what is left to do is to put the parts together
  cases readSecurity members with
  | error first => simp [bind, Except.bind]
  | ok security => simp [bind, Except.bind, pure, Except.pure]

/-! ## Documents that agree -/

theorem portOf?_of_alike {value value' : Json} (h : value.Alike value') :
    portOf? value = portOf? value' := by
  cases h with
  | @number n n' hworth =>
    refine Option.ext fun port => ?_
    rw [portOf?_number_eq_some_iff, portOf?_number_eq_some_iff, hworth]
  | null | bool | string | array | object => rfl

/-- Whether two documents agree on a member. -/
def Agree (members members' : Members) (name : String) : Prop :=
  Option.Rel Json.Alike (Json.get? members name) (Json.get? members' name)

variable {name : String}

theorem Agree.found (h : Agree members members' name) :
    (Json.get? members name = none ∧ Json.get? members' name = none) ∨
      ∃ value value' : Json, Json.get? members name = some value ∧
        Json.get? members' name = some value' ∧ value.Alike value' := by
  rw [Agree] at h
  generalize Json.get? members name = found at h ⊢
  generalize Json.get? members' name = found' at h ⊢
  cases h with
  | none => exact Or.inl ⟨rfl, rfl⟩
  | some h => exact Or.inr ⟨_, _, rfl, rfl, h⟩

theorem readPort_of_agree (h : Agree members members' "port") :
    readPort members = readPort members' := by
  rcases h.found with ⟨hget, hget'⟩ | ⟨value, value', hget, hget', halike⟩
  · rw [readPort, readPort, hget, hget']
  · rw [readPort, readPort, hget, hget']
    simp only [portOf?_of_alike halike]

theorem readUser_of_agree (h : Agree members members' "user") :
    readUser members = readUser members' := by
  rcases h.found with ⟨hget, hget'⟩ | ⟨value, value', hget, hget', halike⟩
  · rw [readUser, readUser, hget, hget']
  · rw [readUser, readUser, hget, hget']
    cases halike with
    | null | bool | number | string | array | object => rfl

theorem readString_of_agree (h : Agree members members' name) :
    readString members name = readString members' name := by
  rcases h.found with ⟨hget, hget'⟩ | ⟨value, value', hget, hget', halike⟩
  · rw [readString, readString, hget, hget']
  · rw [readString, readString, hget, hget']
    cases halike with
    | null | bool | number | string | array | object => rfl

theorem readBool_of_agree (h : Agree members members' name) :
    readBool members name = readBool members' name := by
  rcases h.found with ⟨hget, hget'⟩ | ⟨value, value', hget, hget', halike⟩
  · rw [readBool, readBool, hget, hget']
  · rw [readBool, readBool, hget, hget']
    cases halike with
    | null | bool | number | string | array | object => rfl

theorem ofMembers_of_agree (h : ∀ key : Key, Agree members members' key.name) :
    ofMembers members = ofMembers members' := by
  have hhost : readString members "host" = _ := readString_of_agree (h .host)
  have hdatabase : readString members "database" = _ := readString_of_agree (h .database)
  have hpassword : readString members "password" = _ := readString_of_agree (h .password)
  have hcert : readString members "tls_cert_data" = _ := readString_of_agree (h .tlsCertData)
  have hverify : readBool members "tls_verify_hostname" = _ :=
    readBool_of_agree (h .tlsVerifyHostname)
  have hlevel : readString members "tls_security" = _ := readString_of_agree (h .tlsSecurity)
  have hsecurity : readSecurity members = readSecurity members' := by
    rw [readSecurity, hverify, hlevel]
    rfl
  rw [ofMembers, readPort_of_agree (h .port), readUser_of_agree (h .user), hhost, hdatabase,
    hpassword, hcert, hsecurity]
  rfl

theorem ofText_of_isWrittenAs {text : String} (h : (Json.object members).IsWrittenAs text) :
    ofText text = (ofMembers members).mapError .invalid := by
  rw [ofText, Json.read?_eq_some_iff.mpr h]

theorem mapError_invalid_eq_error_iff {x : Except CredentialsProblem Credentials} :
    x.mapError CredentialsError.invalid = .error (.invalid problem) ↔ x = .error problem := by
  cases x with
  | error first => simp [Except.mapError]
  | ok c => simp [Except.mapError]

theorem exists_mapError_eq_ok_iff {x : Except CredentialsProblem Credentials} :
    (∃ c, x.mapError CredentialsError.invalid = .ok c) ↔ ∀ problem, x ≠ .error problem := by
  cases x with
  | error first => simp [Except.mapError]
  | ok c => simp [Except.mapError]

theorem Key.mem_all (key : Key) : key ∈ Key.all := by
  cases key with
  | _ => decide

/-- Whatever texts they are written as, objects that agree on the known members give the same
credentials or the same problem; and the problem is that of the first member that is wrong. -/
theorem ofText_depends_on_known_members :
    (∀ text text' members members',
      (Json.object members).IsWrittenAs text → (Json.object members').IsWrittenAs text' →
      (∀ key : Key, Agree members members' key.name) → ofText text = ofText text') ∧
    ∀ text members, (Json.object members).IsWrittenAs text →
      (∀ problem, ofText text = .error (.invalid problem) ↔ FirstFault members Key.all problem) ∧
      ((∃ c, ofText text = .ok c) ↔ ∀ key problem, ¬ Fault members key problem) := by
  refine ⟨fun text text' members members' htext htext' hagree => ?_,
    fun text members htext => ?_⟩
  · rw [ofText_of_isWrittenAs htext, ofText_of_isWrittenAs htext', ofMembers_of_agree hagree]
  · rw [ofText_of_isWrittenAs htext]
    refine ⟨fun problem => mapError_invalid_eq_error_iff.trans ofMembers_eq_error_iff, ?_⟩
    rw [exists_mapError_eq_ok_iff]
    constructor
    · intro h key
      have hno : ∀ problem, ¬ FirstFault members Key.all problem := fun problem hf =>
        h problem (ofMembers_eq_error_iff.mpr hf)
      exact no_firstFault_iff.mp hno key key.mem_all
    · intro h problem hproblem
      exact no_firstFault_iff.mpr (fun key _ => h key) problem (ofMembers_eq_error_iff.mp hproblem)

/-- A document of three members, all of which count. -/
def tersePlain : String :=
  "\x7b\"port\": 5656, \"user\": \"a\", \"tls_security\": \"strict\"\x7d"

/-- Its members. -/
def terseMembers : Members :=
  [("port", .number { whole := [5, 6, 5, 6] }), ("user", .string "a"),
    ("tls_security", .string "strict")]

/-- The same in another order, with other spellings, and with members that do not count. -/
def verbosePlain : String :=
  " \x7b \"more\": [1, \x7b\"user\": 2\x7d], \"user\": \"b\", " ++
    "\"tls_security\": \"str\\u0069ct\",\n\"user\": \"\\u0061\", \"port\": 5.656e3 \x7d"

/-- Its members. There are two users, of whom the last one counts. -/
def verboseMembers : Members :=
  [("more", .array [.number { whole := [1] }, .object [("user", .number { whole := [2] })]]),
    ("user", .string "b"), ("tls_security", .string "strict"), ("user", .string "a"),
    ("port", .number { whole := [5], fraction := [6, 5, 6], exponent := some (false, [3]) })]

/-- A document in which all is wrong that it says. -/
def muddled : String := "\x7b\"tls_security\": 1, \"user\": null, \"port\": \"5656\"\x7d"

/-- Its members. The port is the first one that is checked. -/
def muddledMembers : Members :=
  [("tls_security", .number { whole := [1] }), ("user", .null), ("port", .string "5656")]

theorem ofText_depends_on_known_members_plain :
    (Json.object terseMembers).IsWrittenAs tersePlain ∧
      (Json.object verboseMembers).IsWrittenAs verbosePlain ∧
      (∀ key : Key, Agree terseMembers verboseMembers key.name) ∧
      ofText tersePlain = ofText verbosePlain ∧
      (Json.object muddledMembers).IsWrittenAs muddled ∧
      ofText muddled = .error (.invalid .invalidPort) := by
  have hterse : (Json.object terseMembers).IsWrittenAs tersePlain :=
    Json.read?_eq_some_iff.mp rfl
  have hverbose : (Json.object verboseMembers).IsWrittenAs verbosePlain :=
    Json.read?_eq_some_iff.mp rfl
  have hworth : ∀ {members : Members} {n : NumberLiteral}, Json.MembersReadable 1 members →
      Json.get? members "port" = some (.number n) → n.exactValue = (5656 : ℕ) →
      n.worth? = some ((5656 : ℕ) : ℚ) := by
    intro members n hreadable hget hvalue
    have hformed := (Json.readable_of_get? hreadable hget).1
    refine NumberLiteral.worth?_of_close hformed (by decide) (by decide) ?_
    rw [hvalue, sub_self, abs_zero, zero_mul]
    positivity
  have hagree : ∀ key : Key, Agree terseMembers verboseMembers key.name := by
    intro key
    cases key with
    | port =>
      refine .some (.number ((hworth hterse.readable.2 rfl ?_).trans
        (hworth hverbose.readable.2 rfl ?_).symm))
      · norm_num [NumberLiteral.exactValue, NumberLiteral.exactMagnitude, NumberLiteral.valueOf,
          NumberLiteral.power]
      · norm_num [NumberLiteral.exactValue, NumberLiteral.exactMagnitude, NumberLiteral.valueOf,
          NumberLiteral.power]
    | user | tlsSecurity => exact .some (.string _)
    | _ => exact .none
  have hmuddled : (Json.object muddledMembers).IsWrittenAs muddled :=
    Json.read?_eq_some_iff.mp rfl
  have hport : Json.get? muddledMembers "port" = some (.string "5656") := rfl
  have hfirst : FirstFault muddledMembers Key.all .invalidPort :=
    .here (.port hport fun n p hn => by cases hn)
  obtain ⟨hdepends, hproblems⟩ := ofText_depends_on_known_members
  exact ⟨hterse, hverbose, hagree, hdepends _ _ _ _ hterse hverbose hagree, hmuddled,
    ((hproblems _ _ hmuddled).1 _).mpr hfirst⟩

end Credentials

end EdgeClient
