import SectionArchive.Bytes
/-!
The weak checksum: a 16-bit sum of bytes and a 16-bit sum of those sums, both wrapping. The second
sum makes it depend on the order of the bytes.
-/

namespace SectionArchive.Weak

structure Sums where
  /-- Sum of the bytes. -/
  a : UInt16 := 0
  /-- Sum of the values `a` has taken. -/
  b : UInt16 := 0
deriving DecidableEq, Repr

def Sums.update (s : Sums) (byte : UInt8) : Sums :=
  let a := s.a + byte.toUInt16
  { a, b := s.b + a }

/-- The second sum in the high half, the first in the low half. -/
def Sums.finish (s : Sums) : UInt32 := (s.b.toUInt32 <<< 16) ||| s.a.toUInt32

def weak (bs : Bytes) : UInt32 := (bs.foldl Sums.update {}).finish

end SectionArchive.Weak
