import EdgeClient.BigEndian
import EdgeClient.Crypto.Sha256

/-!
# Nonces

A client nonce is 24 letters and digits, each chosen by one draw from a source of random numbers.
The source is a value: it knows every draw in advance and how many have been used, so that a run is
a function of its source.
-/

namespace EdgeClient

/-- A sequence of random numbers that is being used up. -/
structure NonceSource where
  /-- The number that each draw gives. -/
  draw : Nat → Nat
  /-- How many draws have been made. -/
  used : Nat := 0

namespace NonceSource

/-- The characters that a nonce is made of. -/
def alphabet : List Char :=
  "ABCDEFGHIJKLMNOPQRSTUVWXYZabcdefghijklmnopqrstuvwxyz0123456789".toList

/-- How many characters a nonce has. -/
def nonceLength : Nat := 24

/-- The character that a draw chooses. -/
def charOf (n : Nat) : Char :=
  (alphabet[n % alphabet.length]?).getD 'A'

/-- The nonce that the next draws give. -/
def nonce (source : NonceSource) : List Char :=
  (List.range nonceLength).map fun k => charOf (source.draw (source.used + k))

/-- The source after the draws of one nonce. -/
def next (source : NonceSource) : NonceSource :=
  { source with used := source.used + nonceLength }

/-- The draws that a seed gives: each is a digest of the seed and its own number, so that a seed
that nobody knows makes draws that nobody can foresee. -/
def ofSeed (seed : Bytes) : NonceSource where
  draw k := BigEndian.decode (Sha256.digest (seed ++ BigEndian.encode 8 k))

end NonceSource

end EdgeClient
