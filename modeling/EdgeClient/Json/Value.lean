import EdgeClient.Json.Number

/-!
# JSON values

A document is a tree of values. The members of an object stay in the order in which they were
written, repeated names included; looking a name up finds its last value.
-/

namespace EdgeClient

/-- A JSON value. -/
inductive Json where
  /-- The literal `null`. -/
  | null
  /-- A truth value. -/
  | bool (b : Bool)
  /-- A number as it is written. -/
  | number (n : NumberLiteral)
  /-- A text. -/
  | string (s : String)
  /-- A list of values. -/
  | array (items : List Json)
  /-- Named values. -/
  | object (members : List (String × Json))

namespace Json

/-- The last value of a name among the members of an object. -/
def get? (members : List (String × Json)) (name : String) : Option Json :=
  members.reverse.lookup name

end Json

end EdgeClient
