/-!
# Lengths of time

A duration is a number of nanoseconds. Its text uses the largest of the units s, ms, µs and ns that
leaves a whole part, with as many decimals as are needed and no more.
-/

namespace EdgeClient

/-- A length of time. -/
structure Duration where
  /-- The length in nanoseconds. -/
  nanoseconds : Nat
  deriving DecidableEq, Repr

namespace Duration

/-- A duration of whole seconds. -/
def ofSeconds (n : Nat) : Duration := ⟨n * 1000000000⟩

/-- A duration of whole microseconds. -/
def ofMicroseconds (n : Nat) : Duration := ⟨n * 1000⟩

/-- The number of milliseconds after which a timer set for this duration has run out; a timer only
ticks in whole milliseconds. -/
def ticks (d : Duration) : Nat := (d.nanoseconds + 999999) / 1000000

/-- The decimals of a fraction of `10 ^ places` without trailing zeros; none for a whole number. -/
def decimals (places fraction : Nat) : List Char :=
  let digits := Nat.toDigits 10 fraction
  let padded := List.replicate (places - digits.length) '0' ++ digits
  (padded.reverse.dropWhile (· == '0')).reverse

/-- A whole part and a fraction of `10 ^ places` in positional notation. -/
def decimalText (whole places fraction : Nat) : String :=
  match decimals places fraction with
  | [] => toString whole
  | digits => toString whole ++ "." ++ String.ofList digits

/-- The text of a duration, in the largest unit that leaves a whole part. -/
def toText (d : Duration) : String :=
  let n := d.nanoseconds
  if 1000000000 ≤ n then decimalText (n / 1000000000) 9 (n % 1000000000) ++ "s"
  else if 1000000 ≤ n then decimalText (n / 1000000) 6 (n % 1000000) ++ "ms"
  else if 1000 ≤ n then decimalText (n / 1000) 3 (n % 1000) ++ "µs"
  else toString n ++ "ns"

end Duration

end EdgeClient
