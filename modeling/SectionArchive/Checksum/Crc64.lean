import SectionArchive.Bytes
/-!
CRC-64, the block check of the xz format: the same division as CRC-32 with a generator of degree
sixty-four.
-/

namespace SectionArchive.Crc64

def polynomial : UInt64 := 0xC96C5795D7870F42

def shift (r : UInt64) : UInt64 :=
  if r &&& 1 = 1 then (r >>> 1) ^^^ polynomial else r >>> 1

def table : Array UInt64 :=
  Array.ofFn fun i : Fin 256 => Nat.repeat shift 8 (UInt64.ofNat i)

def update (r : UInt64) (b : UInt8) : UInt64 :=
  table.getD ((r ^^^ b.toUInt64) &&& 0xFF).toNat 0 ^^^ (r >>> 8)

def crc64 (bs : Bytes) : UInt64 :=
  bs.foldl update 0xFFFFFFFFFFFFFFFF ^^^ 0xFFFFFFFFFFFFFFFF

end SectionArchive.Crc64
