/-!
# Outlines of values

A description of a structured value: records with named fields, values that may be missing, and
lists. An outline is written either on one line or with every part on a line of its own, indented
by four spaces a level.
-/

namespace EdgeClient.Text

/-- The description of a value. -/
inductive Outline where
  /-- A value that is described by its text. -/
  | leaf (text : String)
  /-- A record: its name and its fields. -/
  | record (name : String) (fields : List (String × Outline))
  /-- A wrapped value: the name of the wrapper and what is in it. -/
  | wrapped (name : String) (content : Outline)
  /-- A list of values. -/
  | list (items : List Outline)

namespace Outline

/-- The description of a value that may be missing. -/
def option (content : Option Outline) : Outline :=
  match content with
  | some content => .wrapped "Some" content
  | none => .leaf "None"

/-! ## On one line -/

mutual

/-- The text of an outline on one line. -/
def flat : Outline → String
  | .leaf text => text
  | .record name fields => name ++ " \x7b " ++ ", ".intercalate (flatFields fields) ++ " \x7d"
  | .wrapped name content => name ++ "(" ++ flat content ++ ")"
  | .list items => "[" ++ ", ".intercalate (flatItems items) ++ "]"

/-- The texts of fields. -/
def flatFields : List (String × Outline) → List String
  | [] => []
  | (name, value) :: rest => (name ++ ": " ++ flat value) :: flatFields rest

/-- The texts of items. -/
def flatItems : List Outline → List String
  | [] => []
  | item :: rest => flat item :: flatItems rest

end

/-! ## Over several lines -/

/-- The space before a line at the given level. -/
def indent (level : Nat) : String := String.ofList (List.replicate (4 * level) ' ')

mutual

/-- The text of an outline over several lines, for a value that stands at the given level. -/
def pretty (level : Nat) : Outline → String
  | .leaf text => text
  | .record name fields =>
    name ++ " \x7b\n" ++ prettyFields (level + 1) fields ++ indent level ++ "\x7d"
  | .wrapped name content =>
    name ++ "(\n" ++ indent (level + 1) ++ pretty (level + 1) content ++ ",\n" ++
      indent level ++ ")"
  | .list [] => "[]"
  | .list (item :: rest) =>
    "[\n" ++ indent (level + 1) ++ pretty (level + 1) item ++ ",\n" ++
      prettyItems (level + 1) rest ++ indent level ++ "]"

/-- The lines of fields. -/
def prettyFields (level : Nat) : List (String × Outline) → String
  | [] => ""
  | (name, value) :: rest =>
    indent level ++ name ++ ": " ++ pretty level value ++ ",\n" ++ prettyFields level rest

/-- The lines of items. -/
def prettyItems (level : Nat) : List Outline → String
  | [] => ""
  | item :: rest => indent level ++ pretty level item ++ ",\n" ++ prettyItems level rest

end

end Outline

end EdgeClient.Text
