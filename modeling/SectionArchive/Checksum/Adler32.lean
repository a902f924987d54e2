import SectionArchive.Bytes
/-!
Adler-32, the trailer of a zlib stream: a sum of bytes and a sum of those sums, both modulo the
largest prime below 2^16, the first started at one.
-/

namespace SectionArchive.Adler32

/-- The largest prime below 2^16. -/
def modulus : Nat := 65521

def update (s : Nat × Nat) (b : UInt8) : Nat × Nat :=
  let a := (s.1 + b.toNat) % modulus
  (a, (s.2 + a) % modulus)

def adler32 (bs : Bytes) : UInt32 :=
  let s := bs.foldl update (1, 0)
  UInt32.ofNat (s.2 * 65536 + s.1)

end SectionArchive.Adler32
