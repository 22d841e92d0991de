import EdgeClient.Credentials
import EdgeClient.Proofs.Json.RoundTrip
import EdgeClient.Proofs.Json.WholeNumbers

/-!
# Writing credentials and reading them again

Credentials that were read from a document are read back from the document they are written as
(`credentials_survive`). The two directions are separate code: the writer goes through the fields,
the reader looks members up by name. They meet in `get?_toMembers`, which says what the reader finds
under any name, and in `IsReadAs`, which says field by field what the reader makes of it.
-/

namespace EdgeClient

/-! ## Looking members up -/

theorem Json.get?_append (front back : List (String × Json)) (name : String) :
    Json.get? (front ++ back) name = (Json.get? back name).or (Json.get? front name) := by
  rw [Json.get?, List.reverse_append, List.lookup_append]
  rfl

namespace Credentials

theorem get?_member {α : Type} (name : String) (form : α → Json) (value : Option α)
    (name' : String) :
    Json.get? (member name form value) name' = if name' = name then value.map form else none := by
  cases value with
  | none =>
    rw [Option.map_none, ite_self]
    rfl
  | some value =>
    have hsingle : Json.get? (member name form (some value)) name' =
        [(name, form value)].lookup name' := rfl
    rw [hsingle, List.lookup_cons]
    by_cases h : name' = name
    · rw [if_pos h, h, beq_self_eq_true]
      rfl
    · rw [if_neg h, beq_eq_false_iff_ne.mpr h]
      rfl

/-- What is found under a name among written members. -/
theorem get?_toMembers (c : Credentials) (name : String) :
    Json.get? c.toMembers name =
      if name = "host" then c.host.map .string
      else if name = "port" then c.port.map fun port => .number (.ofNat port.toNat)
      else if name = "user" then some (.string c.user)
      else if name = "database" then c.database.map .string
      else if name = "password" then c.password.map .string
      else if name = "tls_cert_data" then c.tlsCertData.map .string
      else if name = "tls_security" then c.tlsSecurity.map fun level => .string level.name
      else none := by
  have huser : [("user", Json.string c.user)] = member "user" Json.string (some c.user) := rfl
  simp only [toMembers, huser, Json.get?_append, get?_member]
  by_cases hhost : name = "host"
  · simp [hhost]
  by_cases hport : name = "port"
  · simp [hport]
  by_cases huser : name = "user"
  · simp [huser]
  by_cases hdatabase : name = "database"
  · simp [hdatabase]
  by_cases hpassword : name = "password"
  · simp [hpassword]
  by_cases hcert : name = "tls_cert_data"
  · simp [hcert]
  simp [hhost, hport, huser, hdatabase, hpassword, hcert]

/-! ## Reading what was written -/

theorem readString_of_get? {members : Members} {name : String} {value : Option String}
    (h : Json.get? members name = value.map .string) : readString members name = .ok value := by
  rw [readString, h]
  cases value with
  | none => rfl
  | some value => rfl

theorem portOf?_ofNat {port : UInt16} (h : port ≠ 0) :
    portOf? (.number (.ofNat port.toNat)) = some port := by
  have hlt : port.toNat < 2 ^ 16 := UInt16.toNat_lt port
  have hne : port.toNat ≠ 0 := fun h0 => h (UInt16.toNat_inj.mp h0)
  have hwhole : (NumberLiteral.ofNat port.toNat).magnitude?.bind Dyadic.whole? =
      some port.toNat := by
    obtain ⟨x, hx, hvalue⟩ := NumberLiteral.exists_magnitude?_ofNat hne (by omega)
    rw [hx, Option.bind_some]
    exact Dyadic.whole?_eq_some_iff.mpr hvalue
  have hnegative : ¬ (NumberLiteral.ofNat port.toNat).negative = true := nofun
  have hrange : 1 ≤ port.toNat ∧ port.toNat ≤ 65535 := ⟨by omega, by omega⟩
  simp only [portOf?, if_neg hnegative, hwhole, if_pos hrange, UInt16.ofNat_toNat]

theorem readPort_toMembers {c : Credentials} (h : c.port ≠ some 0) :
    readPort c.toMembers = .ok c.port := by
  have hget := get?_toMembers c "port"
  simp only [String.reduceEq, if_false, if_true] at hget
  rw [readPort, hget]
  cases hport : c.port with
  | none => rfl
  | some port =>
    have hne : port ≠ 0 := fun h0 => h (by rw [hport, h0])
    simp only [Option.map_some, portOf?_ofNat hne]

theorem ofName?_name (level : TlsSecurity) : TlsSecurity.ofName? level.name = some level := by
  cases level with
  | default => rfl
  | strict => rfl
  | noHostVerification => rfl
  | insecure => rfl

/-- The older setting for host names is never written. -/
theorem readSecurity_toMembers (c : Credentials) :
    readSecurity c.toMembers = .ok c.tlsSecurity := by
  have hverify : readBool c.toMembers "tls_verify_hostname" = .ok none := by
    rw [readBool, get?_toMembers]
    rfl
  have hname : readString c.toMembers "tls_security" =
      .ok (c.tlsSecurity.map TlsSecurity.name) := by
    refine readString_of_get? ((get?_toMembers c _).trans ?_)
    rw [Option.map_map]
    rfl
  rw [readSecurity, hverify, hname]
  cases hlevel : c.tlsSecurity with
  | none => rfl
  | some level =>
    simp only [Option.map_some, bind, Except.bind, ofName?_name]
    rfl

/-! ## What a document gives -/

/-- Whether the members of a document give these credentials, an empty host counting as none. -/
structure IsReadAs (members : Members) (c : Credentials) : Prop where
  port : readPort members = .ok c.port
  user : readUser members = .ok c.user
  host : ∃ host, readString members "host" = .ok host ∧
    c.host = host.filter fun host => !host.isEmpty
  database : readString members "database" = .ok c.database
  password : readString members "password" = .ok c.password
  tlsCertData : readString members "tls_cert_data" = .ok c.tlsCertData
  tlsSecurity : readSecurity members = .ok c.tlsSecurity

theorem exists_of_bind_eq_ok {α β : Type} {x : Except CredentialsProblem α}
    {f : α → Except CredentialsProblem β} {b : β} (h : x >>= f = .ok b) :
    ∃ a, x = .ok a ∧ f a = .ok b := by
  cases x with
  | error problem => exact absurd h nofun
  | ok a => exact ⟨a, rfl, h⟩

theorem ofMembers_eq_ok_iff {members : Members} {c : Credentials} :
    ofMembers members = .ok c ↔ IsReadAs members c := by
  constructor
  · intro h
    obtain ⟨port, hport, h⟩ := exists_of_bind_eq_ok h
    obtain ⟨user, huser, h⟩ := exists_of_bind_eq_ok h
    obtain ⟨host, hhost, h⟩ := exists_of_bind_eq_ok h
    obtain ⟨database, hdatabase, h⟩ := exists_of_bind_eq_ok h
    obtain ⟨password, hpassword, h⟩ := exists_of_bind_eq_ok h
    obtain ⟨tlsCertData, hcert, h⟩ := exists_of_bind_eq_ok h
    obtain ⟨tlsSecurity, hsecurity, h⟩ := exists_of_bind_eq_ok h
    obtain rfl := Except.ok.inj h
    exact ⟨hport, huser, ⟨host, hhost, rfl⟩, hdatabase, hpassword, hcert, hsecurity⟩
  · rintro ⟨hport, huser, ⟨host, hhost, hfilter⟩, hdatabase, hpassword, hcert, hsecurity⟩
    simp only [ofMembers, hport, huser, hhost, hdatabase, hpassword, hcert, hsecurity, bind,
      Except.bind, ← hfilter]
    rfl

theorem ofText_eq_ok_iff {text : String} {c : Credentials} :
    ofText text = .ok c ↔ ∃ members, Json.read? text = some (.object members) ∧
      IsReadAs members c := by
  constructor
  · intro h
    unfold ofText at h
    split at h
    · exact absurd h nofun
    · rename_i members hread
      refine ⟨members, hread, ofMembers_eq_ok_iff.mp ?_⟩
      cases hm : ofMembers members with
      | error problem =>
        rw [hm] at h
        exact absurd h nofun
      | ok c' =>
        rw [hm] at h
        obtain rfl := Except.ok.inj h
        rfl
    · exact absurd h nofun
  · rintro ⟨members, hread, h⟩
    rw [ofText, hread]
    simp only [ofMembers_eq_ok_iff.mpr h]
    rfl

theorem portOf?_eq_some {value : Json} {port : UInt16} (h : portOf? value = some port) :
    ∃ n whole, value = .number n ∧ n.negative = false ∧
      n.magnitude?.bind Dyadic.whole? = some whole ∧ (1 ≤ whole ∧ whole ≤ 65535) ∧
        UInt16.ofNat whole = port := by
  cases value with
  | number n =>
    simp only [portOf?] at h
    by_cases hnegative : n.negative = true
    · rw [if_pos hnegative] at h
      exact absurd h nofun
    · rw [if_neg hnegative] at h
      cases hwhole : n.magnitude?.bind Dyadic.whole? with
      | none =>
        rw [hwhole] at h
        exact absurd h nofun
      | some whole =>
        rw [hwhole] at h
        obtain ⟨hrange, hport⟩ := Option.ite_none_right_eq_some.mp h
        exact ⟨n, whole, rfl, by simpa using hnegative, hwhole, hrange, Option.some.inj hport⟩
  | _ => exact absurd h nofun

/-- A port that was read is not zero. -/
theorem port_ne_zero_of_readPort {members : Members} {port : Option UInt16}
    (h : readPort members = .ok port) : port ≠ some 0 := by
  rintro rfl
  unfold readPort at h
  split at h
  · exact absurd h nofun
  · split at h
    · rename_i hvalue
      obtain rfl := Option.some.inj (Except.ok.inj h)
      obtain ⟨n, whole, -, -, -, hrange, hport⟩ := portOf?_eq_some hvalue
      have hlt : whole < UInt16.size := by
        rw [UInt16.size]
        omega
      have hzero := congrArg UInt16.toNat hport
      rw [UInt16.toNat_ofNat_of_lt' hlt, UInt16.toNat_zero] at hzero
      omega
    · exact absurd h nofun

theorem host_ne_empty_of_filter (host : Option String) :
    (host.filter fun host => !host.isEmpty) ≠ some "" := by
  intro h
  obtain ⟨-, hempty⟩ := Option.filter_eq_some_iff.mp h
  exact absurd hempty (by decide)

theorem filter_of_host_ne_empty {host : Option String} (h : host ≠ some "") :
    (host.filter fun host => !host.isEmpty) = host := by
  cases host with
  | none => rfl
  | some host =>
    have hempty : host.isEmpty = false := by
      cases he : host.isEmpty with
      | false => rfl
      | true => exact absurd (congrArg some (String.isEmpty_iff.mp he)) h
    rw [Option.filter_some, hempty]
    rfl

/-! ## Whole documents -/

theorem readable_member {α : Type} {depth : Nat} {form : α → Json}
    (h : ∀ value, (form value).IsReadable depth) (name : String) (value : Option α) :
    Json.MembersReadable depth (member name form value) := by
  cases value with
  | none => trivial
  | some value => exact ⟨h value, trivial⟩

theorem read?_toText (c : Credentials) : Json.read? c.toText = some (.object c.toMembers) := by
  have hstring : ∀ s, (Json.string s).IsReadable 1 := fun _ => trivial
  have hlevel : ∀ level : TlsSecurity, (Json.string level.name).IsReadable 1 := fun _ => trivial
  have hport : ∀ port : UInt16, (Json.number (.ofNat port.toNat)).IsReadable 1 := by
    intro port
    have hlt : port.toNat < 2 ^ 16 := UInt16.toNat_lt port
    exact ⟨NumberLiteral.wellFormed_ofNat _, NumberLiteral.isSome_magnitude?_ofNat (by omega)⟩
  have hmembers : Json.MembersReadable 1 c.toMembers := by
    have huser : Json.MembersReadable 1 [("user", .string c.user)] := ⟨hstring c.user, trivial⟩
    rw [toMembers]
    refine Json.membersReadable_append ?_ (readable_member hlevel _ _)
    refine Json.membersReadable_append ?_ (readable_member hstring _ _)
    refine Json.membersReadable_append ?_ (readable_member hstring _ _)
    refine Json.membersReadable_append ?_ (readable_member hstring _ _)
    refine Json.membersReadable_append ?_ huser
    exact Json.membersReadable_append (readable_member hstring _ _) (readable_member hport _ _)
  exact Json.read?_toText ⟨by decide, hmembers⟩

/-- Written members give the credentials they were written for. -/
theorem isReadAs_toMembers {c : Credentials} (hhost : c.host ≠ some "")
    (hport : c.port ≠ some 0) : IsReadAs c.toMembers c where
  port := readPort_toMembers hport
  user := by
    rw [readUser, get?_toMembers]
    rfl
  host := ⟨c.host, readString_of_get? (get?_toMembers c _), (filter_of_host_ne_empty hhost).symm⟩
  database := readString_of_get? (get?_toMembers c _)
  password := readString_of_get? (get?_toMembers c _)
  tlsCertData := readString_of_get? (get?_toMembers c _)
  tlsSecurity := readSecurity_toMembers c

/-- Credentials that were read from a document are read back from the document they are written as.
So are all others, unless they have an empty host or the port zero, which no document gives. -/
theorem credentials_survive :
    (∀ text c, ofText text = .ok c → ofText c.toText = .ok c) ∧
      ∀ c : Credentials, ofText c.toText = .ok c ↔ c.host ≠ some "" ∧ c.port ≠ some 0 := by
  have hread : ∀ text c, ofText text = .ok c → c.host ≠ some "" ∧ c.port ≠ some 0 := by
    intro text c h
    obtain ⟨members, -, hc⟩ := ofText_eq_ok_iff.mp h
    obtain ⟨host, -, hhost⟩ := hc.host
    exact ⟨hhost ▸ host_ne_empty_of_filter host, port_ne_zero_of_readPort hc.port⟩
  have hwritten : ∀ c : Credentials, c.host ≠ some "" ∧ c.port ≠ some 0 →
      ofText c.toText = .ok c := fun c h =>
    ofText_eq_ok_iff.mpr ⟨c.toMembers, read?_toText c, isReadAs_toMembers h.1 h.2⟩
  exact ⟨fun text c h => hwritten c (hread text c h), fun c => ⟨hread _ c, hwritten c⟩⟩

/-- A document with an empty host, escapes, and the older setting for host names only. -/
def olderDocument : String :=
  "\x7b\"host\": \"\", \"user\": \"a\\u0001\\\"\\ud83d\\ude00\", \"port\": 5656, " ++
    "\"tls_verify_hostname\": false\x7d"

/-- What it gives. -/
def olderCredentials : Credentials :=
  { user := "a\x01\"😀", port := some 5656, tlsSecurity := some .noHostVerification }

theorem credentials_survive_olderDocument :
    ofText olderDocument = .ok olderCredentials ∧
      ofText olderCredentials.toText = .ok olderCredentials ∧
      ∃ c : Credentials, (c.host ≠ some "" ∧ c.port ≠ some 0) ∧ ofText c.toText = .ok c := by
  have hread : ofText olderDocument = .ok olderCredentials := rfl
  have hset : (some "\\\n" : Option String) ≠ some "" ∧ (none : Option UInt16) ≠ some 0 := by
    decide
  obtain ⟨hsurvive, hothers⟩ := credentials_survive
  exact ⟨hread, hsurvive _ _ hread, { host := some "\\\n", user := "" }, hset, (hothers _).mpr hset⟩

end Credentials

end EdgeClient
