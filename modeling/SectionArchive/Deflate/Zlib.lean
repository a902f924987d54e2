import SectionArchive.Checksum.Adler32
import SectionArchive.Deflate.Inflate
/-!
The zlib stream: two bytes of settings, deflate data, and the Adler-32 of what it expands to. The
encoder finds repetitions and writes them in one block of the fixed codes.
-/

namespace SectionArchive.Zlib

open Deflate

/-- The settings bytes must name deflate with a window of at most 32 KiB and no preset
dictionary, and be divisible by 31 as a number. -/
def takeSettings : Inflate Unit := do
  let method ← takeBits 8
  let flags ← takeBits 8
  require ((method * 256 + flags) % 31 == 0 && method % 16 == 8 && method / 16 ≤ 7 &&
    flags / 32 % 2 == 0)

def takeTrailer : Inflate Unit := do
  align
  let a ← takeBits 8
  let b ← takeBits 8
  let c ← takeBits 8
  let d ← takeBits 8
  let s ← get
  require (((a * 256 + b) * 256 + c) * 256 + d == (Adler32.adler32 s.out.toList).toNat)

def takeStream (bits : Nat) : Inflate Unit := do
  takeSettings
  takeBlocks (bits + 1) (bits + 1)
  takeTrailer

def decode (bs : Bytes) : Decoding :=
  let bits := bitsOf bs
  match takeStream bits.length { bits } with
  | .ok () s => { output := s.out.toList, used := (s.taken + 7) / 8, stop := none }
  | .error stop s => { output := s.out.toList, used := (s.taken + 7) / 8, stop := some stop }

def limits : Lz77.Limits := { minLength := 3, maxLength := 258, maxDistance := 32768 }

def literalWords : Array (List Bool) := fixedLiterals.codeBook 288

def distanceWords : Array (List Bool) := fixedDistances.codeBook 32

def valueBits (ranges : Array ValueRange) (words : Array (List Bool)) (first value : Nat) :
    List Bool :=
  let i := rangeIndex ranges value
  let r := ranges.getD i ⟨0, 0⟩
  words.getD (first + i) [] ++ numberBits r.extra (value - r.base)

def tokenBits : Lz77.Token → List Bool
  | .literal b => literalWords.getD b.toNat []
  | .copy length distance =>
    valueBits lengthRanges literalWords firstLength length ++
      valueBits distanceRanges distanceWords 0 distance

def blockBits (tokens : List Lz77.Token) : List Bool :=
  [true, true, false] ++ tokens.flatMap tokenBits ++ literalWords.getD endOfBlock []

def encode (bs : Bytes) : Bytes :=
  let raw := bs.toArray
  let tokens := Lz77.tokensFrom limits raw (Lz77.candidates raw) raw.size 0 #[]
  [0x78, 0x9c] ++ pack (blockBits tokens.toList) ++ bigEndian32 (Adler32.adler32 bs)

end SectionArchive.Zlib
