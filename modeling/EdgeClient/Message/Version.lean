/-!
# Protocol versions

A version is a pair of numbers, compared by the major one first. The client speaks exactly one
version and negotiates no other.
-/

namespace EdgeClient

/-- A version of the protocol. -/
structure ProtocolVersion where
  /-- The number that counts most. -/
  major : UInt16
  /-- The number that tells versions with the same major one apart. -/
  minor : UInt16
  deriving DecidableEq, Repr

namespace ProtocolVersion

/-- The only version that this client accepts. -/
def current : ProtocolVersion := ⟨0, 8⟩

/-- The text of a version. -/
def toText (v : ProtocolVersion) : String :=
  s!"{v.major}.{v.minor}"

/-- The order of versions. -/
def compare (a b : ProtocolVersion) : Ordering :=
  (Ord.compare a.major b.major).then (Ord.compare a.minor b.minor)

end ProtocolVersion

end EdgeClient
