import EdgeClient.Json.Value

/-!
# Tokens of a JSON text

A text is cut into tokens one character at a time. A `Scan` is what is known in the middle of a
text: whether a token is open, and what of it has been seen. Numbers and words run up to the first
character that cannot belong to them; texts run up to their closing quote. Code points beyond the
first 65536 are escaped as a pair of surrogates, and a surrogate without its partner is refused.
-/

namespace EdgeClient.Json

/-- The smallest meaningful piece of a text. -/
inductive Token where
  /-- An opening bracket. -/
  | openArray
  /-- A closing bracket. -/
  | closeArray
  /-- An opening brace. -/
  | openObject
  /-- A closing brace. -/
  | closeObject
  /-- The sign between a name and its value. -/
  | colon
  /-- The sign between items or members. -/
  | comma
  /-- A text. -/
  | text (s : String)
  /-- A number, a truth value or null. -/
  | scalar (value : Json)

/-- What has been seen of the token that is being read. -/
inductive Scan where
  /-- No token is open. -/
  | blank
  /-- A number; its characters, latest first. -/
  | number (seen : List Char)
  /-- A word; its characters, latest first. -/
  | word (seen : List Char)
  /-- A text; its characters, latest first. -/
  | text (seen : List Char)
  /-- A text, just after a backslash. -/
  | escape (seen : List Char)
  /-- A text, inside a code of four digits of which `left` are missing; `high` is the first half
  of a surrogate pair if there has been one. -/
  | code (seen : List Char) (high : Option Nat) (left value : Nat)
  /-- A text, after the first half of a surrogate pair. -/
  | pair (seen : List Char) (high : Nat)
  /-- A text, after the first half of a surrogate pair and a backslash. -/
  | pairEscape (seen : List Char) (high : Nat)

namespace Scan

/-- Whether a character may be part of a number. -/
def isNumberChar (c : Char) : Bool :=
  c.isDigit || c == '-' || c == '+' || c == '.' || c == 'e' || c == 'E'

/-- Whether a character separates tokens and means nothing else. -/
def isSpace (c : Char) : Bool :=
  c == ' ' || c == '\n' || c == '\t' || c == '\r'

/-- The value of a hexadecimal digit. -/
def hexValue? (c : Char) : Option Nat :=
  if c.isDigit then some (c.toNat - 48)
  else if 'a' ≤ c ∧ c ≤ 'f' then some (c.toNat - 87)
  else if 'A' ≤ c ∧ c ≤ 'F' then some (c.toNat - 55)
  else none

/-- The number that a run of characters is, if it is one of acceptable size. -/
def numberToken? (seen : List Char) : Option Token := do
  let n ← NumberLiteral.ofChars? seen.reverse
  let _ ← n.magnitude?
  some (.scalar (.number n))

/-- The value that a word stands for. -/
def wordToken? (seen : List Char) : Option Token :=
  let word := seen.reverse
  if word = "true".toList then some (.scalar (.bool true))
  else if word = "false".toList then some (.scalar (.bool false))
  else if word = "null".toList then some (.scalar .null)
  else none

/-- What a character means where no token is open: a token by itself, or the start of one. -/
def start? (c : Char) : Option (List Token × Scan) :=
  if isSpace c then some ([], .blank)
  else if c = '"' then some ([], .text [])
  else if c.isDigit ∨ c = '-' then some ([], .number [c])
  else if c.isAlpha then some ([], .word [c])
  else match c with
    | '[' => some ([.openArray], .blank)
    | ']' => some ([.closeArray], .blank)
    | '\x7b' => some ([.openObject], .blank)
    | '\x7d' => some ([.closeObject], .blank)
    | ':' => some ([.colon], .blank)
    | ',' => some ([.comma], .blank)
    | _ => none

/-- A finished token followed by what a character means after it. -/
def startAfter? (token : Option Token) (c : Char) : Option (List Token × Scan) := do
  let token ← token
  let (tokens, scan) ← start? c
  some (token :: tokens, scan)

/-- The character that a short escape stands for. -/
def shortEscape? (c : Char) : Option Char :=
  match c with
  | '"' => some '"'
  | '\\' => some '\\'
  | '/' => some '/'
  | 'b' => some '\x08'
  | 'f' => some '\x0c'
  | 'n' => some '\n'
  | 'r' => some '\r'
  | 't' => some '\t'
  | _ => none

/-- What a complete code of four digits leads to. -/
def endCode? (seen : List Char) (high : Option Nat) (value : Nat) : Option Scan :=
  match high with
  | some high =>
    if 0xdc00 ≤ value ∧ value ≤ 0xdfff then
      some (.text (Char.ofNat (0x10000 + (high - 0xd800) * 1024 + (value - 0xdc00)) :: seen))
    else
      none
  | none =>
    if 0xd800 ≤ value ∧ value ≤ 0xdbff then some (.pair seen value)
    else if 0xdc00 ≤ value ∧ value ≤ 0xdfff then none
    else some (.text (Char.ofNat value :: seen))

/-- Takes in one character: the tokens that it completes, and what is known after it. -/
def feed (scan : Scan) (c : Char) : Option (List Token × Scan) :=
  match scan with
  | .blank => start? c
  | .number seen =>
    if isNumberChar c then some ([], .number (c :: seen)) else startAfter? (numberToken? seen) c
  | .word seen =>
    if c.isAlpha then some ([], .word (c :: seen)) else startAfter? (wordToken? seen) c
  | .text seen =>
    if c = '"' then some ([.text (String.ofList seen.reverse)], .blank)
    else if c = '\\' then some ([], .escape seen)
    else if c.toNat < 0x20 then none
    else some ([], .text (c :: seen))
  | .escape seen =>
    if c = 'u' then some ([], .code seen none 4 0)
    else (shortEscape? c).map fun c => ([], .text (c :: seen))
  | .code seen high left value => do
    let value := 16 * value + (← hexValue? c)
    if left ≤ 1 then
      let scan ← endCode? seen high value
      some ([], scan)
    else
      some ([], .code seen high (left - 1) value)
  | .pair seen high => if c = '\\' then some ([], .pairEscape seen high) else none
  | .pairEscape seen high => if c = 'u' then some ([], .code seen (some high) 4 0) else none

/-- The tokens that the end of the text completes. -/
def finish : Scan → Option (List Token)
  | .blank => some []
  | .number seen => (numberToken? seen).map ([·])
  | .word seen => (wordToken? seen).map ([·])
  | _ => none

end Scan

end EdgeClient.Json
