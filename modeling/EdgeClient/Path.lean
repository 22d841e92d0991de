/-!
# Paths

Paths are texts with slashes between their parts. A path that starts with a slash is absolute, and
joining anything in front of an absolute path leaves the absolute path alone.
-/

namespace EdgeClient.Path

/-- Whether a path starts at the root. -/
def isAbsolute (path : String) : Bool :=
  path.toList.head? == some '/'

/-- A path below another one; an absolute path is below none. -/
def join (base path : String) : String :=
  if isAbsolute path then path
  else if base.isEmpty || base.toList.getLast? == some '/' then base ++ path
  else base ++ "/" ++ path

/-- The directory for settings: what the user has chosen, if that is absolute, or else a directory
in the user's home. -/
def configDirectory? (chosen home : Option String) : Option String :=
  match chosen.filter isAbsolute with
  | some directory => some directory
  | none => (home.filter fun home => !home.isEmpty).map fun home => join home ".config"

/-- Where the credentials of a named instance are. -/
def instanceCredentials (configDirectory name : String) : String :=
  join (join (join configDirectory "edgedb") "credentials") (name ++ ".json")

end EdgeClient.Path
