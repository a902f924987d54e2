import SectionArchive.Lzma.Packet
import SectionArchive.Lzma.RangeEncoder
/-!
Writing chunked LZMA data. The input is cut into chunks; each is packed with fresh probabilities
but may refer back to earlier chunks, and is written as it is when packing does not pay.
-/

namespace SectionArchive.Lzma

def limits : Lz77.Limits := { minLength := 3, maxLength := 273, maxDistance := 0x800000 }

/-- The byte that announces a window of 8 MiB. -/
def windowByte : UInt8 := 22

def chunkSize : Nat := 65536

structure Packer where
  position : Nat
  history : History := {}
  encoder : RangeEncoder

namespace Packer

def context (raw : Array UInt8) (p : Packer) : Context where
  settings := .usual
  history := p.history
  position := p.position
  previous := if p.position = 0 then 0 else raw.getD (p.position - 1) 0
  matched :=
    if p.history.rep0 ≤ p.position then raw.getD (p.position - p.history.rep0) 0 else 0

def packet : Lz77.Token → Packet
  | .literal b => .literal b
  | .copy length distance => .fresh length distance

def tokenLength : Lz77.Token → Nat
  | .literal _ => 1
  | .copy length _ => length

def push (raw : Array UInt8) (p : Packer) (token : Lz77.Token) : Packer where
  position := p.position + tokenLength token
  history := (p.history.step (packet token)).2
  encoder := p.encoder.run (Packet.program (p.context raw)) (answers token)

end Packer

def packChunk (raw : Array UInt8) (found : Array Nat) (start stop : Nat) : Bytes :=
  let tokens := Lz77.tokensFrom limits raw found stop start #[]
  let fresh : RangeEncoder := { probs := Array.replicate (Slot.count .usual) evenOdds }
  (tokens.foldl (Packer.push raw) { position := start, encoder := fresh }).encoder.finish

def sizeBytes (n : Nat) : Bytes := [UInt8.ofNat ((n - 1) / 256), UInt8.ofNat (n - 1)]

def chunk (raw : Array UInt8) (found : Array Nat) (start stop : Nat) : Bytes :=
  let packed := packChunk raw found start stop
  let size := stop - start
  if packed.length < size then
    (if start = 0 then 0xE0 else 0xC0) :: sizeBytes size ++ sizeBytes packed.length ++
      [Settings.usual.toByte] ++ packed
  else
    (if start = 0 then 0x01 else 0x02) :: sizeBytes size ++
      (raw.extract start stop).toList

def pack (bs : Bytes) : Bytes :=
  let raw := bs.toArray
  let found := Lz77.candidates raw
  let starts := (List.range ((raw.size + chunkSize - 1) / chunkSize)).map (· * chunkSize)
  (starts.flatMap fun start => chunk raw found start (min raw.size (start + chunkSize))) ++ [0]

end SectionArchive.Lzma
