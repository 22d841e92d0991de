/-!
# Rounding to binary floating point

Numbers in documents are worked out in binary floating point with 53 significant bits, but in exact
integer arithmetic, so that every step can be reasoned about. A `Dyadic` is a non-negative value of
that kind; `Dyadic.nearest` rounds a fraction to one, a tie going to the even neighbour, and gives
nothing when the fraction is beyond the largest finite value.
-/

namespace EdgeClient

/-- The number `mantissa · 2 ^ exponent`. -/
structure Dyadic where
  /-- The significant bits. -/
  mantissa : Nat
  /-- The power of two that they are scaled by. -/
  exponent : Int
  deriving DecidableEq, Repr

namespace Dyadic

/-- The number zero. -/
def zero : Dyadic := ⟨0, 0⟩

/-- The numerator of the value as a fraction. -/
def numerator (x : Dyadic) : Nat := x.mantissa <<< x.exponent.toNat

/-- The denominator of the value as a fraction, a power of two. -/
def denominator (x : Dyadic) : Nat := 1 <<< (-x.exponent).toNat

/-- The whole number that the value is, if it is one. -/
def whole? (x : Dyadic) : Option Nat :=
  if x.numerator % x.denominator = 0 then some (x.numerator / x.denominator) else none

/-- The whole number nearest to a fraction, a tie going to the even one. -/
def roundHalfEven (num den : Nat) : Nat :=
  let q := num / den
  let twice := 2 * (num % den)
  if den < twice ∨ (twice = den ∧ q % 2 = 1) then q + 1 else q

/-- The power of two below or at a positive fraction, as its exponent. -/
def magnitude (num den : Nat) : Int :=
  let guess : Int := (num.log2 : Int) - den.log2
  if num <<< (-guess).toNat < den <<< guess.toNat then guess - 1 else guess

/-- One more than the largest number of 53 bits. -/
def mantissaLimit : Nat := 0x20000000000000

/-- The power of two that the last bit of the smallest values stands for, as its exponent. -/
def minScale : Int := -1074

/-- The power of two that the last bit of the largest values stands for, as its exponent. -/
def maxScale : Int := 971

/-- The value with 53 significant bits, or fewer near zero, that is nearest to a fraction. -/
def nearest (num den : Nat) : Option Dyadic :=
  if num = 0 then
    some zero
  else
    let scale := max (magnitude num den - 52) minScale
    let mantissa := roundHalfEven (num <<< (-scale).toNat) (den <<< scale.toNat)
    if scale < maxScale ∨ (scale = maxScale ∧ mantissa < mantissaLimit) then
      some ⟨mantissa, scale⟩
    else
      none

/-- The value nearest to a whole number. -/
def ofNat (n : Nat) : Option Dyadic := nearest n 1

/-- The rounded product. -/
def mul (x y : Dyadic) : Option Dyadic :=
  nearest (x.numerator * y.numerator) (x.denominator * y.denominator)

/-- The rounded quotient. -/
def div (x y : Dyadic) : Option Dyadic :=
  nearest (x.numerator * y.denominator) (x.denominator * y.numerator)

/-- A power of ten, rounded. -/
def powerOfTen (k : Nat) : Option Dyadic := ofNat (Nat.pow 10 k)

/-- The largest power of ten that is scaled by in one step. -/
def maxPower : Nat := 308

/-- Divides by `10 ^ k`, in steps of at most `maxPower`, each of them rounded. -/
def scaleDown (x : Dyadic) (k : Nat) : Option Dyadic :=
  if k ≤ maxPower then do
    x.div (← powerOfTen k)
  else if x.mantissa = 0 then
    some x
  else do
    scaleDown (← x.div (← powerOfTen maxPower)) (k - maxPower)
termination_by k
decreasing_by simp only [maxPower] at *; omega

/-- Multiplies by `10 ^ k`, rounded. -/
def scaleUp (x : Dyadic) (k : Nat) : Option Dyadic :=
  if k ≤ maxPower then do
    x.mul (← powerOfTen k)
  else if x.mantissa = 0 then
    some x
  else
    none

/-- Multiplies by a power of ten, rounded. -/
def scale (x : Dyadic) (exponent : Int) : Option Dyadic :=
  match exponent with
  | .ofNat k => x.scaleUp k
  | .negSucc k => x.scaleDown (k + 1)

end Dyadic

end EdgeClient
