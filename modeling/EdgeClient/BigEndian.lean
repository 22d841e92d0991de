import EdgeClient.Bytes

/-!
# Big-endian numbers

All numbers on the wire are written most significant byte first in a fixed number of bytes. The two
functions here are generic in that width; they are inverse to each other on numbers that fit.
-/

namespace EdgeClient.BigEndian

/-- How many numbers fit into `width` bytes. -/
def limit : (width : Nat) → Nat
  | 0 => 1
  | width + 1 => 256 * limit width

/-- The last `width` base-256 digits of `n`, most significant first. -/
def encode : (width : Nat) → (n : Nat) → Bytes
  | 0, _ => []
  | width + 1, n => encode width (n / 256) ++ [UInt8.ofNat n]

/-- The number whose base-256 digits are the bytes. -/
def decode (bs : Bytes) : Nat :=
  bs.foldl (fun n b => 256 * n + b.toNat) 0

/-- A number takes exactly the bytes of its width. -/
@[simp] theorem length_encode (width n : Nat) : (encode width n).length = width := by
  induction width generalizing n with
  | zero => rfl
  | succ width ih => simp [encode, ih]

@[simp] theorem decode_nil : decode [] = 0 := rfl

/-- A last byte is the least significant digit. -/
theorem decode_append_singleton (bs : Bytes) (b : UInt8) :
    decode (bs ++ [b]) = 256 * decode bs + b.toNat := by
  simp [decode]

/-- Reading back what was written keeps the number up to its width. -/
theorem decode_encode (width n : Nat) : decode (encode width n) = n % limit width := by
  induction width generalizing n with
  | zero => rw [limit, Nat.mod_one]; rfl
  | succ width ih =>
    rw [encode, decode_append_singleton, ih, limit, Nat.mod_mul, Nat.add_comm, UInt8.toNat_ofNat']

/-- A number that fits its width is read back unchanged. -/
theorem decode_encode_of_lt {width n : Nat} (h : n < limit width) :
    decode (encode width n) = n := by
  rw [decode_encode, Nat.mod_eq_of_lt h]

end EdgeClient.BigEndian
