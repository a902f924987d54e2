import SectionArchive.Bytes
/-!
CRC-32: the remainder of the message polynomial, bits taken lowest first, with the register
started at and finally inverted by all ones. The byte step reads a table of what eight single-bit
divisions make of a byte, so a byte costs one look-up.
-/

namespace SectionArchive.Crc32

/-- The generator polynomial, lowest bit standing for the highest power. -/
def polynomial : UInt32 := 0xEDB88320

def shift (r : UInt32) : UInt32 :=
  if r &&& 1 = 1 then (r >>> 1) ^^^ polynomial else r >>> 1

def table : Array UInt32 :=
  Array.ofFn fun i : Fin 256 => Nat.repeat shift 8 (UInt32.ofNat i)

def update (r : UInt32) (b : UInt8) : UInt32 :=
  table.getD ((r ^^^ b.toUInt32) &&& 0xFF).toNat 0 ^^^ (r >>> 8)

def start : UInt32 := 0xFFFFFFFF

def finish (r : UInt32) : UInt32 := r ^^^ 0xFFFFFFFF

def crc32 (bs : Bytes) : UInt32 := finish (bs.foldl update start)

end SectionArchive.Crc32
