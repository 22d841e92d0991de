import EdgeClient.Scram.Error
import EdgeClient.Text.Base64

/-!
# The strings of an authentication exchange

Both sides speak in attributes separated by commas, each a letter, an equals sign and a value
(RFC 5802). This module takes server strings apart and escapes user names, which are the only
values that could hold a comma. Strings are handled as lists of characters.
-/

namespace EdgeClient.Scram

/-- A text as its characters. -/
abbrev Chars := List Char

/-! ## Splitting and escaping -/

/-- The parts of a string between its commas; there is one more part than there are commas. -/
def parts (text : Chars) : List Chars :=
  text.splitOn ','

/-- The value of a part that starts with the given letter and an equals sign. -/
def valueOf (letter : Char) : Chars → Option Chars
  | c :: '=' :: value => if c = letter then some value else none
  | _ => none

/-- A user name in which commas and equals signs are escaped. -/
def escape : Chars → Chars
  | [] => []
  | '=' :: rest => '=' :: '3' :: 'D' :: escape rest
  | ',' :: rest => '=' :: '2' :: 'C' :: escape rest
  | c :: rest => c :: escape rest

/-- The user name behind an escaped one. -/
def unescape : Chars → Chars
  | '=' :: '3' :: 'D' :: rest => '=' :: unescape rest
  | '=' :: '2' :: 'C' :: rest => ',' :: unescape rest
  | c :: rest => c :: unescape rest
  | [] => []

/-! ## Numbers -/

/-- The number that decimal digits stand for; nothing if a character is not a digit. -/
def digits? : Chars → Nat → Option Nat
  | [], n => some n
  | c :: rest, n => if c.isDigit then digits? rest (10 * n + (c.toNat - 48)) else none

/-- A number of 32 bits in decimal: at least one digit, possibly after a plus sign. -/
def number? (cs : Chars) : Option Nat :=
  let digits := match cs with
    | '+' :: rest => rest
    | _ => cs
  match digits with
  | [] => none
  | _ => (digits? digits 0).filter (· < 0x100000000)

/-! ## The first server string -/

/-- What has been read of the first server string; a repeated attribute replaces its value. -/
structure ServerFirst where
  /-- The combined nonce. -/
  nonce : Option Chars := none
  /-- The salt for key derivation. -/
  salt : Option Bytes := none
  /-- The number of rounds of key derivation. -/
  iterations : Option Nat := none
  deriving DecidableEq, Repr

namespace ServerFirst

/-- Takes in one part of the string. Parts without a meaning are skipped. -/
def readPart (seen : ServerFirst) (part : Chars) : Except AuthError ServerFirst :=
  if let some nonce := valueOf 'r' part then
    .ok { seen with nonce := some nonce }
  else if let some value := valueOf 's' part then
    match Base64.decode value with
    | some salt => .ok { seen with salt := some salt }
    | none => .error (.malformed .saltEncoding)
  else if let some value := valueOf 'i' part then
    match number? value with
    | some count => .ok { seen with iterations := some count }
    | none => .error (.malformed .iterationSyntax)
  else if let some _ := valueOf 'm' part then
    .error (.malformed .mandatoryExtension)
  else if let some reason := valueOf 'e' part then
    .error (.rejected (String.ofList reason))
  else
    .ok seen

/-- Takes in all parts of the string, from left to right. -/
def readParts : List Chars → ServerFirst → Except AuthError ServerFirst
  | [], seen => .ok seen
  | part :: rest, seen =>
    match seen.readPart part with
    | .ok seen => readParts rest seen
    | .error e => .error e

end ServerFirst

/-- A challenge that the client can answer. -/
structure Challenge where
  /-- The combined nonce. -/
  nonce : Chars
  /-- The salt for key derivation. -/
  salt : Bytes
  /-- The number of rounds of key derivation. -/
  iterations : Nat
  deriving DecidableEq, Repr

/-- Checks what has been read of the first server string against the nonce that the client sent:
everything has to be there, the iteration count has to be acceptable, and the nonce has to be
longer than the client's and start with it. -/
def ServerFirst.check (seen : ServerFirst) (clientNonce : Chars) : Except AuthError Challenge :=
  match seen.nonce, seen.salt, seen.iterations with
  | none, _, _ => .error (.malformed .missingNonce)
  | _, none, _ => .error (.malformed .missingSalt)
  | _, _, none => .error (.malformed .missingIterations)
  | some nonce, some salt, some iterations =>
    if iterations = 0 then
      .error (.malformed .zeroIterations)
    else if maxIterations < iterations then
      .error (.malformed (.tooManyIterations iterations))
    else if clientNonce.isPrefixOf nonce ∧ nonce.length ≠ clientNonce.length then
      .ok ⟨nonce, salt, iterations⟩
    else
      .error .nonceMismatch

/-- Reads the first server string. -/
def readServerFirst (clientNonce : Chars) (text : Chars) : Except AuthError Challenge :=
  match ServerFirst.readParts (parts text) {} with
  | .ok seen => seen.check clientNonce
  | .error e => .error e

/-! ## The last server string -/

/-- Reads the signature out of the last server string: an error report, or else the first part
that is a signature. -/
def readServerFinal (text : Chars) : Except AuthError Bytes :=
  match valueOf 'e' text with
  | some reason => .error (.rejected (String.ofList reason))
  | none =>
    match (parts text).findSome? (valueOf 'v') with
    | none => .error (.malformed .missingVerifier)
    | some value =>
      match Base64.decode value with
      | some signature => .ok signature
      | none => .error (.malformed .signatureEncoding)

end EdgeClient.Scram
