import SectionArchive.Stream.Decoding
/-!
Bit streams. A byte holds its bits lowest first; numbers are written lowest bit first, code words
are written as they are. The reader works on the list of bits still to come, so what it does to a
written number is a statement about lists.
-/

namespace SectionArchive.Deflate

def byteBits (b : UInt8) : List Bool :=
  [b &&& 1 != 0, b &&& 2 != 0, b &&& 4 != 0, b &&& 8 != 0,
    b &&& 16 != 0, b &&& 32 != 0, b &&& 64 != 0, b &&& 128 != 0]

def bitsOf (bs : Bytes) : List Bool := bs.flatMap byteBits

def numberBits : (width n : Nat) → List Bool
  | 0, _ => []
  | w + 1, n => (n % 2 == 1) :: numberBits w (n / 2)

def ofBits : List Bool → Nat
  | [] => 0
  | b :: bs => b.toNat + 2 * ofBits bs

/-- Fill bytes with bits, behind the bytes in `done`; the last byte is filled up with zeros. -/
def packMore (done : Array UInt8) : List Bool → Array UInt8
  | b0 :: b1 :: b2 :: b3 :: b4 :: b5 :: b6 :: b7 :: rest =>
    packMore (done.push (UInt8.ofNat (ofBits [b0, b1, b2, b3, b4, b5, b6, b7]))) rest
  | [] => done
  | last => done.push (UInt8.ofNat (ofBits last))

def pack (bits : List Bool) : Bytes := (packMore #[] bits).toList

/-- An inflater at work: the bits to come, how many are gone, and the output so far. -/
structure Inflater where
  bits : List Bool
  taken : Nat := 0
  out : Array UInt8 := #[]

abbrev Inflate := EStateM Stop Inflater

def takeBit : Inflate Bool := fun s =>
  match s.bits with
  | [] => .error .starved s
  | b :: rest => .ok b { s with bits := rest, taken := s.taken + 1 }

def takeBits : (width : Nat) → Inflate Nat
  | 0 => pure 0
  | w + 1 => do
    let b ← takeBit
    let high ← takeBits w
    return b.toNat + 2 * high

def align : Inflate Unit := fun s =>
  let skip := (8 - s.taken % 8) % 8
  .ok () { s with bits := s.bits.drop skip, taken := s.taken + skip }

def emit (b : UInt8) : Inflate Unit := fun s => .ok () { s with out := s.out.push b }

def require (condition : Bool) : Inflate Unit :=
  if condition then pure () else throw .corrupt

end SectionArchive.Deflate
