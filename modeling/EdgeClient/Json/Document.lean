import EdgeClient.Json.Token

/-!
# Reading JSON

A document is put together from its tokens, one at a time. A `Draft` is a document in the middle of
being read: the lists and objects that are open, innermost first, and what may come next. Lists and
objects may be nested up to a fixed depth.
-/

namespace EdgeClient.Json

/-- A list or an object that has not been closed. -/
inductive Container where
  /-- A list; its items so far, latest first. -/
  | array (items : List Json)
  /-- An object; its members so far, latest first, and the name whose value is being read. -/
  | object (members : List (String × Json)) (name : String)

/-- What may come next in a document. -/
inductive Expectation where
  /-- A value. -/
  | value
  /-- A value, or the end of the list that has just been opened. -/
  | firstItem
  /-- A name, or the end of the object that has just been opened. -/
  | firstName
  /-- A name. -/
  | name
  /-- The colon after a name. -/
  | colon
  /-- A comma, or the end of the innermost list or object. -/
  | separator
  /-- Nothing: the document is complete. -/
  | done (json : Json)

/-- A document that is being read. -/
structure Draft where
  /-- The open lists and objects, innermost first. -/
  containers : List Container := []
  /-- What may come next. -/
  expecting : Expectation := .value

namespace Draft

/-- How many lists and objects may be open at a time. -/
def maxDepth : Nat := 127

/-- Adds a complete value to what is being read. -/
def complete (containers : List Container) (value : Json) : Draft :=
  match containers with
  | [] => ⟨[], .done value⟩
  | .array items :: outer => ⟨.array (value :: items) :: outer, .separator⟩
  | .object members name :: outer => ⟨.object ((name, value) :: members) name :: outer, .separator⟩

/-- Opens a list or object unless too many are open. -/
def push? (containers : List Container) (c : Container) (next : Expectation) : Option Draft :=
  if containers.length < maxDepth then some ⟨c :: containers, next⟩ else none

/-- Takes in a token where a value is due. -/
def feedValue (containers : List Container) : Token → Option Draft
  | .scalar value => some (complete containers value)
  | .text s => some (complete containers (.string s))
  | .openArray => push? containers (.array []) .firstItem
  | .openObject => push? containers (.object [] "") .firstName
  | _ => none

/-- Takes in a token where a name is due. -/
def feedName : List Container → Token → Option Draft
  | .object members _ :: outer, .text name => some ⟨.object members name :: outer, .colon⟩
  | _, _ => none

/-- Closes the innermost list or object. -/
def close : List Container → Token → Option Draft
  | .array items :: outer, .closeArray => some (complete outer (.array items.reverse))
  | .object members _ :: outer, .closeObject => some (complete outer (.object members.reverse))
  | _, _ => none

/-- Takes in a token. -/
def feed (draft : Draft) (token : Token) : Option Draft :=
  match draft.expecting with
  | .value => feedValue draft.containers token
  | .firstItem =>
    match token with
    | .closeArray => close draft.containers token
    | _ => feedValue draft.containers token
  | .firstName =>
    match token with
    | .closeObject => close draft.containers token
    | _ => feedName draft.containers token
  | .name => feedName draft.containers token
  | .colon =>
    match token with
    | .colon => some ⟨draft.containers, .value⟩
    | _ => none
  | .separator =>
    match draft.containers, token with
    | .array _ :: _, .comma => some ⟨draft.containers, .value⟩
    | .object _ _ :: _, .comma => some ⟨draft.containers, .name⟩
    | _, _ => close draft.containers token
  | .done _ => none

/-- Takes in tokens from left to right. -/
def feedAll (draft : Draft) (tokens : List Token) : Option Draft :=
  tokens.foldlM feed draft

/-- The document, if it is complete. -/
def finish (draft : Draft) : Option Json :=
  match draft.expecting with
  | .done json => some json
  | _ => none

end Draft

/-- Reads on from the middle of a text. -/
def readFrom : (scan : Scan) → (draft : Draft) → List Char → Option Json
  | scan, draft, [] =>
    match scan.finish with
    | some tokens => (draft.feedAll tokens).bind Draft.finish
    | none => none
  | scan, draft, c :: rest =>
    match scan.feed c with
    | some (tokens, scan) =>
      match draft.feedAll tokens with
      | some draft => readFrom scan draft rest
      | none => none
    | none => none

/-- The document that a text is, if it is one. -/
def read? (text : String) : Option Json :=
  readFrom .blank {} text.toList

end EdgeClient.Json
