import EdgeClient.Crypto.Sha256

/-!
# Keyed hashing and key derivation

HMAC hashes a message under a key (RFC 2104), here with SHA-256. PBKDF2 derives a key from a
password by applying it many times over (RFC 8018). A key is prepared once: the states after its
inner and its outer block are kept, so that each further message costs only its own blocks.
-/

namespace EdgeClient

/-- The bytes of two strings combined by exclusive or, up to the shorter of them. -/
def Bytes.xor (as bs : Bytes) : Bytes :=
  List.zipWith (· ^^^ ·) as bs

namespace Hmac

/-- A key that is ready for use. -/
structure Key where
  /-- The state after the inner block. -/
  inner : Sha256.State
  /-- The state after the outer block. -/
  outer : Sha256.State
  deriving DecidableEq, Repr

/-- A key as one block: a long key is hashed first, a short one is followed by zeros. -/
def keyBlock (key : Bytes) : Bytes :=
  let short := if Sha256.blockSize < key.length then Sha256.digest key else key
  short ++ List.replicate (Sha256.blockSize - short.length) 0

/-- Prepares a key. -/
def Key.ofBytes (key : Bytes) : Key :=
  let state (mask : UInt8) : Sha256.State :=
    Sha256.absorb 1 ((keyBlock key).map (· ^^^ mask)) Sha256.initial
  ⟨state 0x36, state 0x5c⟩

/-- The authentication code of a message under a prepared key. -/
def Key.code (key : Key) (message : Bytes) : Bytes :=
  Sha256.finish key.outer Sha256.blockSize (Sha256.finish key.inner Sha256.blockSize message)

end Hmac

/-- The authentication code of a message under a key. A key of any length will do, so this cannot
fail. -/
def hmac (key message : Bytes) : Bytes :=
  (Hmac.Key.ofBytes key).code message

/-- An authentication code has 32 bytes. -/
@[simp] theorem length_hmac (key message : Bytes) : (hmac key message).length = 32 := rfl

/-- Combines the code `last` with the `count` codes that follow it, each the code of the one
before. -/
def chainedCodes (key : Hmac.Key) : (count : Nat) → (last sum : Bytes) → Bytes
  | 0, _, sum => sum
  | count + 1, last, sum =>
    let next := key.code last
    chainedCodes key count next (sum.xor next)

/-- The first block of the key derived from a password, a salt and a number of iterations. -/
def pbkdf2 (password salt : Bytes) (iterations : Nat) : Bytes :=
  let key := Hmac.Key.ofBytes password
  let first := key.code (salt ++ BigEndian.encode 4 1)
  chainedCodes key (iterations - 1) first first

end EdgeClient
