import EdgeClient.Path
import Mathlib.Data.List.Basic

/-!
# Where the credentials of an instance are

What a path leads to depends on its components and not on its text: slashes may be doubled, and dots
for the same directory count for nothing once the path has begun. Joining a relative path to a base
adds its components to those of the base, with or without a slash at the end of the base. Joining
an absolute path gives up the base, so the name of an instance decides whether its credentials are
looked for in the directory for credentials.
-/

namespace EdgeClient.Path

/-- One step of a path. -/
inductive Component where
  | root
  /-- The working directory, which counts only at the start of a path. -/
  | current
  /-- The directory above, wherever that is. -/
  | parent
  | named (name : String)
  deriving DecidableEq, Repr

/-- What stands between the slashes of a path. -/
def parts (path : String) : List String :=
  (path.toList.splitOn '/').map String.ofList

/-- The step that a part stands for, if any. -/
def component? (part : String) : Option Component :=
  if part = "" ∨ part = "." then none
  else if part = ".." then some .parent
  else some (.named part)

/-- The steps of a path from its start. -/
def steps (path : String) : List Component := (parts path).filterMap component?

/-- What a path says about where it starts. -/
def start (path : String) : List Component :=
  if isAbsolute path then [.root]
  else if (parts path).head? = some "." then [.current]
  else []

/-- The components of a path. -/
def components (path : String) : List Component := start path ++ steps path

example :
    components "./cfg//./a/../b/" = [.current, .named "cfg", .named "a", .parent, .named "b"] := by
  decide

variable {base path name : String}

/-! ## Paths that are joined -/

theorem toList_slash (base path : String) :
    (base ++ "/" ++ path).toList = base.toList ++ '/' :: path.toList := by
  rw [String.toList_append, String.toList_append, List.append_assoc]
  rfl

theorem parts_slash (base path : String) :
    parts (base ++ "/" ++ path) = parts base ++ parts path := by
  unfold parts
  rw [toList_slash, List.splitOn_append_cons_self, List.map_append]

theorem steps_slash (base path : String) :
    steps (base ++ "/" ++ path) = steps base ++ steps path := by
  unfold steps
  rw [parts_slash, List.filterMap_append]

/-- What follows a slash has no say in where a path starts. -/
theorem start_slash (base path : String) :
    start (base ++ "/" ++ path) = if base = "" then [.root] else start base := by
  have hhead : (parts (base ++ "/" ++ path)).head? = (parts base).head? := by
    have hparts : parts base ≠ [] := by simp [parts]
    rw [parts_slash, List.head?_append_of_ne_nil _ hparts]
  by_cases hbase : base = ""
  · subst hbase
    have habsolute : isAbsolute ("" ++ "/" ++ path) = true := by
      unfold isAbsolute
      rw [toList_slash]
      rfl
    rw [if_pos rfl]
    exact if_pos habsolute
  · have hchars : base.toList ≠ [] := fun h => hbase (String.toList_eq_nil_iff.mp h)
    have habsolute : isAbsolute (base ++ "/" ++ path) = isAbsolute base := by
      unfold isAbsolute
      rw [toList_slash, List.head?_append_of_ne_nil _ hchars]
    rw [if_neg hbase]
    unfold start
    rw [habsolute, hhead]

/-- A slash separates a relative path from its base, whether the base brings it or not. -/
theorem join_of_relative (hrelative : isAbsolute path = false) (hbase : base ≠ "") :
    join base path = base ++ "/" ++ path ∨
      ∃ front, base = front ++ "/" ∧ join base path = front ++ "/" ++ path := by
  have hempty : base.isEmpty = false := by simpa using hbase
  by_cases hslash : base.toList.getLast? = some '/'
  · obtain ⟨front, hfront⟩ := List.getLast?_eq_some_iff.mp hslash
    have hclosed : base = String.ofList front ++ "/" := by
      rw [← String.toList_inj, hfront, String.toList_append, String.toList_ofList]
      rfl
    refine Or.inr ⟨String.ofList front, hclosed, ?_⟩
    rw [← hclosed]
    simp [join, hrelative, hslash]
  · left
    simp [join, hrelative, hempty, hslash]

/-- Joining a relative path adds its steps to the components of its base. -/
theorem components_join (hrelative : isAbsolute path = false) (hbase : base ≠ "") :
    components (join base path) = components base ++ steps path := by
  rcases join_of_relative hrelative hbase with hjoin | ⟨front, hfront, hjoin⟩
  · unfold components
    rw [hjoin, start_slash, steps_slash, if_neg hbase, List.append_assoc]
  · have hclosed : base = front ++ "/" ++ "" := by rw [hfront, String.append_empty]
    have hnothing : steps "" = [] := by decide
    unfold components
    rw [hjoin, hclosed, start_slash, start_slash, steps_slash, steps_slash, hnothing,
      List.append_nil, List.append_assoc]

theorem getLast?_join {c : Char} (hrelative : isAbsolute path = false)
    (hlast : path.toList.getLast? = some c) (base : String) :
    (join base path).toList.getLast? = some c := by
  have happend : ∀ front : String, (front ++ path).toList.getLast? = some c := by
    intro front
    rw [String.toList_append, List.getLast?_append, hlast]
    rfl
  unfold join
  rw [hrelative, if_neg Bool.false_ne_true]
  split
  · exact happend base
  · exact happend (base ++ "/")

theorem ne_empty_of_getLast? {c : Char} (hlast : path.toList.getLast? = some c) : path ≠ "" := by
  rintro rfl
  exact nomatch hlast

/-! ## The file of an instance -/

/-- The directory for the credentials of all instances. -/
def credentialsDirectory (configDirectory : String) : String :=
  join (join configDirectory "edgedb") "credentials"

theorem getLast?_credentialsDirectory (configDirectory : String) :
    (credentialsDirectory configDirectory).toList.getLast? = some 's' :=
  getLast?_join (by decide) (by decide) _

theorem components_credentialsDirectory (configDirectory : String) :
    components (credentialsDirectory configDirectory) =
      components configDirectory ++ [.named "edgedb", .named "credentials"] := by
  have hlast : (join configDirectory "edgedb").toList.getLast? = some 'b' :=
    getLast?_join (by decide) (by decide) _
  unfold credentialsDirectory
  rw [components_join (by decide) (ne_empty_of_getLast? hlast)]
  by_cases hempty : configDirectory = ""
  · subst hempty
    decide
  · rw [components_join (by decide) hempty, List.append_assoc]
    rfl

theorem isAbsolute_json (name : String) : isAbsolute (name ++ ".json") = isAbsolute name := by
  unfold isAbsolute
  rw [String.toList_append]
  cases name.toList <;> rfl

/-- Whether a path leads from the directory for credentials along the name of an instance. The name
may step up from there again. -/
def LeadsToCredentials (configDirectory name path : String) : Prop :=
  components path = components (credentialsDirectory configDirectory) ++ steps (name ++ ".json")

instance (configDirectory name path : String) :
    Decidable (LeadsToCredentials configDirectory name path) :=
  inferInstanceAs (Decidable (_ = _))

theorem instanceCredentials_of_absolute (habsolute : isAbsolute name = true)
    (configDirectory : String) : instanceCredentials configDirectory name = name ++ ".json" := by
  rw [← isAbsolute_json] at habsolute
  exact if_pos habsolute

theorem instanceCredentials_of_relative (hrelative : isAbsolute name = false)
    (configDirectory : String) :
    instanceCredentials configDirectory name =
      credentialsDirectory configDirectory ++ "/" ++ (name ++ ".json") := by
  have hlast := getLast?_credentialsDirectory configDirectory
  have hempty : (credentialsDirectory configDirectory).isEmpty = false := by
    simpa using ne_empty_of_getLast? hlast
  show join (credentialsDirectory configDirectory) (name ++ ".json") = _
  unfold join
  rw [isAbsolute_json, hrelative, hlast, hempty, if_neg Bool.false_ne_true]
  rfl

theorem leadsToCredentials_of_relative (hrelative : isAbsolute name = false)
    (configDirectory : String) :
    LeadsToCredentials configDirectory name (instanceCredentials configDirectory name) := by
  have hlast := getLast?_credentialsDirectory configDirectory
  rw [← isAbsolute_json] at hrelative
  exact components_join hrelative (ne_empty_of_getLast? hlast)

/-- A path of which the name is all has no room for the directory before it. -/
theorem not_leadsToCredentials_of_absolute (habsolute : isAbsolute name = true)
    (configDirectory : String) :
    ¬ LeadsToCredentials configDirectory name (name ++ ".json") := by
  intro hleads
  have hroot : components (name ++ ".json") = .root :: steps (name ++ ".json") := by
    rw [← isAbsolute_json] at habsolute
    unfold components start
    rw [if_pos habsolute]
    rfl
  unfold LeadsToCredentials at hleads
  rw [hroot, components_credentialsDirectory] at hleads
  have hlength := congrArg List.length hleads
  simp only [List.length_append, List.length_cons, List.length_nil] at hlength
  omega

theorem steps_of_plain (hplain : '/' ∉ name.toList) :
    steps (name ++ ".json") = [.named (name ++ ".json")] := by
  have hsplit : parts (name ++ ".json") = [name ++ ".json"] := by
    have hslash : '/' ∉ (name ++ ".json").toList := by
      rw [String.toList_append, List.mem_append]
      rintro (h | h)
      · exact hplain h
      · exact absurd h (by decide)
    unfold parts
    rw [List.splitOn_eq_singleton hslash, List.map_singleton, String.ofList_toList]
  -- the ending makes any name longer than what stands for something else
  have hlong : ∀ short : String, short.toList.length < 5 → name ++ ".json" ≠ short := by
    rintro short hshort rfl
    rw [String.toList_append, List.length_append] at hshort
    have hending : ".json".toList.length = 5 := by decide
    omega
  unfold steps
  rw [hsplit]
  simp [component?, hlong "" (by decide), hlong "." (by decide), hlong ".." (by decide)]

/-- A name without slashes is that of a file in the directory for credentials itself. -/
theorem components_instanceCredentials_of_plain (hplain : '/' ∉ name.toList)
    (configDirectory : String) :
    components (instanceCredentials configDirectory name) =
      components configDirectory ++
        [.named "edgedb", .named "credentials", .named (name ++ ".json")] := by
  have hrelative : isAbsolute name = false := by
    unfold isAbsolute
    cases hname : name.toList with
    | nil => rfl
    | cons c cs =>
      rw [hname] at hplain
      have hhead : c ≠ '/' := fun h => hplain (h ▸ List.mem_cons_self)
      simpa using hhead
  have hleads := leadsToCredentials_of_relative hrelative configDirectory
  unfold LeadsToCredentials at hleads
  rw [hleads, components_credentialsDirectory, steps_of_plain hplain, List.append_assoc]
  rfl

/-- The credentials of an instance are looked for in the directory for credentials, unless the name
of the instance is an absolute path: then they are looked for there. -/
theorem instanceCredentials_leadsToCredentials_iff (configDirectory name : String) :
    components (credentialsDirectory configDirectory) =
        components configDirectory ++ [.named "edgedb", .named "credentials"] ∧
      instanceCredentials configDirectory name =
        (if isAbsolute name then name ++ ".json"
        else credentialsDirectory configDirectory ++ "/" ++ (name ++ ".json")) ∧
      (LeadsToCredentials configDirectory name (instanceCredentials configDirectory name) ↔
        isAbsolute name = false) := by
  refine ⟨components_credentialsDirectory configDirectory, ?_⟩
  cases hname : isAbsolute name with
  | true =>
    have hpath := instanceCredentials_of_absolute hname configDirectory
    have hnot := not_leadsToCredentials_of_absolute hname configDirectory
    rw [hpath]
    exact ⟨rfl, fun hleads => absurd hleads hnot, fun h => nomatch h⟩
  | false =>
    have hpath := instanceCredentials_of_relative hname configDirectory
    have hleads := leadsToCredentials_of_relative hname configDirectory
    exact ⟨hpath, fun _ => rfl, fun _ => hleads⟩

/-- The name of a file at the root is the place where its credentials are looked for. -/
theorem not_leadsToCredentials_rooted :
    instanceCredentials "/cfg" "/abs" = "/abs.json" ∧
      ¬ LeadsToCredentials "/cfg" "/abs" (instanceCredentials "/cfg" "/abs") := by
  decide

end EdgeClient.Path
