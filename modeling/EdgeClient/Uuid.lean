import EdgeClient.BigEndian
import EdgeClient.Text.Hex

/-!
# Universally unique identifiers

An identifier is a number of 128 bits. On the wire it is 16 bytes, most significant first; as text
it is 32 hexadecimal digits in groups of 8, 4, 4, 4 and 12.
-/

namespace EdgeClient

/-- A universally unique identifier. -/
structure Uuid where
  /-- The identifier as one number, first byte most significant. -/
  bits : BitVec 128
  deriving DecidableEq, Repr

namespace Uuid

/-- How many bytes an identifier takes. -/
def size : Nat := 16

/-- The identifier made of the given bytes, of which there should be sixteen. -/
def ofBytes (bs : Bytes) : Uuid :=
  ⟨BitVec.ofNat 128 (BigEndian.decode bs)⟩

/-- The sixteen bytes of an identifier. -/
def toBytes (id : Uuid) : Bytes :=
  BigEndian.encode size id.bits.toNat

/-- The hyphenated lower-case text of an identifier. -/
def toText (id : Uuid) : String :=
  let bs := id.toBytes
  let group (start count : Nat) := Text.hexOfBytes ((bs.drop start).take count)
  "-".intercalate [group 0 4, group 4 2, group 6 2, group 8 2, group 10 6]

end Uuid

end EdgeClient
