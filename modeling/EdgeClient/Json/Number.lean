import EdgeClient.Json.Rounding

/-!
# Number literals

A number in a document is kept as it is written: a sign, digits before and after the point, and an
exponent. What it is worth is worked out with a significand of 64 bits. Digits that no longer fit
are not rounded but dropped, those before the point counting towards the exponent; the significand
is then scaled by a power of ten in floating point. The result can differ from the exact value in
its last bits. A literal beyond the largest floating-point value is not accepted.
-/

namespace EdgeClient

/-- A number as it is written. -/
structure NumberLiteral where
  /-- Whether a minus sign comes first. -/
  negative : Bool := false
  /-- The digits before the point, most significant first. -/
  whole : List Nat
  /-- The digits after the point. -/
  fraction : List Nat := []
  /-- The exponent: its sign and its digits. -/
  exponent : Option (Bool × List Nat) := none
  deriving DecidableEq, Repr

namespace NumberLiteral

/-! ## From text -/

/-- The value of a decimal digit. -/
def digitValue (c : Char) : Nat := c.toNat - 48

/-- Splits a text after its leading digits. -/
def splitDigits (cs : List Char) : List Nat × List Char :=
  ((cs.takeWhile Char.isDigit).map digitValue, cs.dropWhile Char.isDigit)

/-- Takes off a minus sign. -/
def splitMinus : List Char → Bool × List Char
  | '-' :: rest => (true, rest)
  | cs => (false, cs)

/-- Takes off the digits after a point; there has to be one if there is a point. -/
def splitFraction : List Char → Option (List Nat × List Char)
  | '.' :: rest =>
    match splitDigits rest with
    | ([], _) => none
    | split => some split
  | cs => some ([], cs)

/-- Takes off a sign before the digits of an exponent; true stands for a minus sign. -/
def splitSign : List Char → Bool × List Char
  | '-' :: rest => (true, rest)
  | '+' :: rest => (false, rest)
  | cs => (false, cs)

/-- Takes off an exponent; there has to be a digit in it if there is one. -/
def splitExponent : List Char → Option (Option (Bool × List Nat) × List Char)
  | c :: rest =>
    if c = 'e' ∨ c = 'E' then
      let (negative, rest) := splitSign rest
      match splitDigits rest with
      | ([], _) => none
      | (digits, rest) => some (some (negative, digits), rest)
    else
      some (none, c :: rest)
  | [] => some (none, [])

/-- Whether the digits before a point are well formed: there is one, and a zero comes first only on
its own. -/
def wellFormedWhole : List Nat → Bool
  | [] => false
  | 0 :: _ :: _ => false
  | _ => true

/-- The literal that a text is, if it is one. -/
def ofChars? (cs : List Char) : Option NumberLiteral := do
  let (negative, cs) := splitMinus cs
  let (whole, cs) := splitDigits cs
  if !wellFormedWhole whole then
    none
  let (fraction, cs) ← splitFraction cs
  let (exponent, cs) ← splitExponent cs
  if cs.isEmpty then
    some { negative, whole, fraction, exponent }
  else
    none

/-! ## To text -/

/-- The text of a list of digits. -/
def digitChars (digits : List Nat) : List Char :=
  digits.map Nat.digitChar

/-- A literal as it is written. -/
def toChars (n : NumberLiteral) : List Char :=
  (if n.negative then ['-'] else []) ++ digitChars n.whole ++
    (if n.fraction.isEmpty then [] else '.' :: digitChars n.fraction) ++
    match n.exponent with
    | some (negative, digits) => 'e' :: (if negative then ['-'] else []) ++ digitChars digits
    | none => []

/-- The literal of a natural number. -/
def ofNat (n : Nat) : NumberLiteral :=
  { whole := (Nat.toDigits 10 n).map digitValue }

/-! ## Values -/

/-- The number that a list of digits stands for. -/
def valueOf (digits : List Nat) : Nat :=
  digits.foldl (fun n d => 10 * n + d) 0

/-- The power of ten that the exponent of a literal asks for. -/
def power (n : NumberLiteral) : Int :=
  match n.exponent with
  | some (true, digits) => -(valueOf digits : Int)
  | some (false, digits) => valueOf digits
  | none => 0

/-- A significand that is being gathered, and the power of ten it is to be scaled by. -/
structure Significand where
  /-- The digits gathered so far. -/
  value : Nat := 0
  /-- The power of ten. -/
  power : Int := 0
  deriving DecidableEq, Repr

/-- Whether one more digit fits into 64 bits. -/
def Significand.fits (s : Significand) (digit : Nat) : Bool :=
  10 * s.value + digit < 0x10000000000000000

/-- Gathers the digits before the point; from the first one that does not fit they only count. -/
def Significand.takeWhole : List Nat → Significand → Significand
  | [], s => s
  | d :: rest, s =>
    if s.fits d then
      takeWhole rest { s with value := 10 * s.value + d }
    else
      { s with power := s.power + (rest.length + 1) }

/-- Gathers the digits after the point; from the first one that does not fit they are dropped. -/
def Significand.takeFraction : List Nat → Significand → Significand
  | [], s => s
  | d :: rest, s =>
    if s.fits d then
      takeFraction rest ⟨10 * s.value + d, s.power - 1⟩
    else
      s

/-- The digits of a literal that count, and the power of ten they are to be scaled by. -/
def significand (n : NumberLiteral) : Significand :=
  let s := Significand.takeFraction n.fraction (Significand.takeWhole n.whole {})
  { s with power := s.power + n.power }

/-- The magnitude of a literal in floating point; nothing if it is too large. -/
def magnitude? (n : NumberLiteral) : Option Dyadic := do
  let s := n.significand
  (← Dyadic.ofNat s.value).scale s.power

end NumberLiteral

end EdgeClient
