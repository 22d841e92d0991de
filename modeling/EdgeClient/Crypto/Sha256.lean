import EdgeClient.BigEndian

/-!
# SHA-256

The hash of a byte string, by FIPS 180-4: the message is padded to whole blocks of 64 bytes, and
each block in turn is mixed into a state of eight 32-bit words. Hashing can be resumed from the
state after some whole blocks, which is what keyed hashing makes use of.
-/

namespace EdgeClient.Sha256

/-- How many bytes a block has. -/
def blockSize : Nat := 64

/-- How many bytes a digest has. -/
def digestSize : Nat := 32

/-- The eight words that hashing works on. -/
structure State where
  /-- The first word. -/
  a : UInt32
  /-- The second word. -/
  b : UInt32
  /-- The third word. -/
  c : UInt32
  /-- The fourth word. -/
  d : UInt32
  /-- The fifth word. -/
  e : UInt32
  /-- The sixth word. -/
  f : UInt32
  /-- The seventh word. -/
  g : UInt32
  /-- The eighth word. -/
  h : UInt32
  deriving DecidableEq, Repr

/-- The state before the first block: fractions of the square roots of the first primes. -/
def initial : State :=
  ⟨0x6a09e667, 0xbb67ae85, 0x3c6ef372, 0xa54ff53a, 0x510e527f, 0x9b05688c, 0x1f83d9ab, 0x5be0cd19⟩

/-- One constant for each round: fractions of the cube roots of the first primes. -/
def roundConstants : List UInt32 := [
  0x428a2f98, 0x71374491, 0xb5c0fbcf, 0xe9b5dba5, 0x3956c25b, 0x59f111f1, 0x923f82a4, 0xab1c5ed5,
  0xd807aa98, 0x12835b01, 0x243185be, 0x550c7dc3, 0x72be5d74, 0x80deb1fe, 0x9bdc06a7, 0xc19bf174,
  0xe49b69c1, 0xefbe4786, 0x0fc19dc6, 0x240ca1cc, 0x2de92c6f, 0x4a7484aa, 0x5cb0a9dc, 0x76f988da,
  0x983e5152, 0xa831c66d, 0xb00327c8, 0xbf597fc7, 0xc6e00bf3, 0xd5a79147, 0x06ca6351, 0x14292967,
  0x27b70a85, 0x2e1b2138, 0x4d2c6dfc, 0x53380d13, 0x650a7354, 0x766a0abb, 0x81c2c92e, 0x92722c85,
  0xa2bfe8a1, 0xa81a664b, 0xc24b8b70, 0xc76c51a3, 0xd192e819, 0xd6990624, 0xf40e3585, 0x106aa070,
  0x19a4c116, 0x1e376c08, 0x2748774c, 0x34b0bcb5, 0x391c0cb3, 0x4ed8aa4a, 0x5b9cca4f, 0x682e6ff3,
  0x748f82ee, 0x78a5636f, 0x84c87814, 0x8cc70208, 0x90befffa, 0xa4506ceb, 0xbef9a3f7, 0xc67178f2]

/-- Rotation to the right. -/
@[inline] def rotateRight (x n : UInt32) : UInt32 := (x >>> n) ||| (x <<< (32 - n))

/-- The words of a byte string, four bytes each; bytes that make up no whole word are left out. -/
def words : Bytes → List UInt32
  | a :: b :: c :: d :: rest =>
    ((a.toUInt32 <<< 24) ||| (b.toUInt32 <<< 16) ||| (c.toUInt32 <<< 8) ||| d.toUInt32) ::
      words rest
  | _ => []

/-- The four bytes of a word. -/
def wordBytes (x : UInt32) : Bytes :=
  [(x >>> 24).toUInt8, (x >>> 16).toUInt8, (x >>> 8).toUInt8, x.toUInt8]

/-- Adds words to a message schedule, each made of four earlier ones. -/
def extendSchedule : Nat → Array UInt32 → Array UInt32
  | 0, ws => ws
  | count + 1, ws =>
    let t := ws.size
    let x := ws.getD (t - 15) 0
    let y := ws.getD (t - 2) 0
    let small0 := rotateRight x 7 ^^^ rotateRight x 18 ^^^ (x >>> 3)
    let small1 := rotateRight y 17 ^^^ rotateRight y 19 ^^^ (y >>> 10)
    extendSchedule count (ws.push (small1 + ws.getD (t - 7) 0 + small0 + ws.getD (t - 16) 0))

/-- The sixty-four words of a block's message schedule. -/
def schedule (block : List UInt32) : List UInt32 :=
  (extendSchedule 48 block.toArray).toList

/-- Works through the rounds, given each round's constant and its word of the schedule. -/
def rounds : List UInt32 → List UInt32 → (a b c d e f g h : UInt32) → State
  | k :: ks, w :: ws, a, b, c, d, e, f, g, h =>
    let big1 := rotateRight e 6 ^^^ rotateRight e 11 ^^^ rotateRight e 25
    let choice := (e &&& f) ^^^ (e.complement &&& g)
    let t1 := h + big1 + choice + k + w
    let big0 := rotateRight a 2 ^^^ rotateRight a 13 ^^^ rotateRight a 22
    let majority := (a &&& b) ^^^ (a &&& c) ^^^ (b &&& c)
    rounds ks ws (t1 + big0 + majority) a b c (d + t1) e f g
  | _, _, a, b, c, d, e, f, g, h => ⟨a, b, c, d, e, f, g, h⟩

/-- Mixes the words of one block into a state. -/
def compress (s : State) (block : List UInt32) : State :=
  let r := rounds roundConstants (schedule block) s.a s.b s.c s.d s.e s.f s.g s.h
  ⟨s.a + r.a, s.b + r.b, s.c + r.c, s.d + r.d, s.e + r.e, s.f + r.f, s.g + r.g, s.h + r.h⟩

/-- Mixes the given number of blocks into a state. -/
def absorb : (blocks : Nat) → Bytes → State → State
  | 0, _, s => s
  | blocks + 1, bs, s => absorb blocks (bs.drop blockSize) (compress s (words (bs.take blockSize)))

/-- What follows the last byte of a message of `size` bytes: a one bit, zeros up to a whole number
of blocks, and the size in bits. -/
def padding (size : Nat) : Bytes :=
  0x80 :: List.replicate ((119 - size % 64) % 64) 0 ++ BigEndian.encode 8 (8 * size)

/-- The bytes of a state. -/
def State.toBytes (s : State) : Bytes :=
  wordBytes s.a ++ wordBytes s.b ++ wordBytes s.c ++ wordBytes s.d ++
    wordBytes s.e ++ wordBytes s.f ++ wordBytes s.g ++ wordBytes s.h

/-- Finishes hashing: `s` is the state after `done` bytes in whole blocks, `rest` is what follows
them. -/
def finish (s : State) (done : Nat) (rest : Bytes) : Bytes :=
  let bs := rest ++ padding (done + rest.length)
  (absorb (bs.length / blockSize) bs s).toBytes

/-- The digest of a byte string. -/
def digest (bs : Bytes) : Bytes := finish initial 0 bs

/-- A digest has 32 bytes. -/
@[simp] theorem length_finish (s : State) (done : Nat) (rest : Bytes) :
    (finish s done rest).length = digestSize := rfl

/-- A digest has 32 bytes. -/
@[simp] theorem length_digest (bs : Bytes) : (digest bs).length = digestSize := rfl

end EdgeClient.Sha256
