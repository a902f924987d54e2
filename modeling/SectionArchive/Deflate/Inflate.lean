import SectionArchive.Deflate.Alphabet
import SectionArchive.Stream.Lz77
/-!
Reading deflate data: blocks that are stored, that use the fixed codes, or that bring their own.
Every loop takes at least one bit a turn, so the count of bits bounds it.
-/

namespace SectionArchive.Deflate

def copy (length distance : Nat) : Inflate Unit := fun s =>
  if s.out.size < distance then .error .corrupt s
  else .ok () { s with out := Lz77.copyFrom distance length s.out }

def takeSymbols (literals distances : Tree) : (fuel : Nat) → Inflate Unit
  | 0 => throw .starved
  | fuel + 1 => do
    let symbol ← literals.decode
    if symbol < endOfBlock then
      emit (UInt8.ofNat symbol)
      takeSymbols literals distances fuel
    else if symbol = endOfBlock then pure ()
    else
      let length ← takeValue lengthRanges (symbol - firstLength)
      let d ← distances.decode
      let distance ← takeValue distanceRanges d
      copy length distance
      takeSymbols literals distances fuel

def takeStored : (n : Nat) → Inflate Unit
  | 0 => pure ()
  | n + 1 => do
    let b ← takeBits 8
    emit (UInt8.ofNat b)
    takeStored n

/-- A stored block: its length, the complement of that, and the bytes. -/
def storedBlock : Inflate Unit := do
  align
  let length ← takeBits 16
  let complement ← takeBits 16
  require (length + complement == 0xFFFF)
  takeStored length

def codeLengthOrder : List Nat :=
  [16, 17, 18, 0, 8, 7, 9, 6, 10, 5, 11, 4, 12, 3, 13, 2, 14, 1, 15]

def takeCodeLengths : (symbols : List Nat) → Inflate (List (Nat × Nat))
  | [] => pure []
  | symbol :: rest => do
    let length ← takeBits 3
    let more ← takeCodeLengths rest
    return (symbol, length) :: more

/-- Read code lengths until there are `total` of them. Those read so far are in reverse order. -/
def takeLengths (code : Tree) (total : Nat) : (fuel : Nat) → (done : List Nat) →
    Inflate (List Nat)
  | 0, _ => throw .starved
  | fuel + 1, done =>
    if total ≤ done.length then do
      require (done.length == total)
      return done.reverse
    else do
      let symbol ← code.decode
      if symbol < 16 then takeLengths code total fuel (symbol :: done)
      else if symbol = 16 then
        match done with
        | [] => throw .corrupt
        | last :: _ => do
          let n ← takeBits 2
          takeLengths code total fuel (List.replicate (n + 3) last ++ done)
      else if symbol = 17 then
        let n ← takeBits 3
        takeLengths code total fuel (List.replicate (n + 3) 0 ++ done)
      else
        let n ← takeBits 7
        takeLengths code total fuel (List.replicate (n + 11) 0 ++ done)

def takeCodes : Inflate (Tree × Tree) := do
  let literalCount := (← takeBits 5) + 257
  let distanceCount := (← takeBits 5) + 1
  let n := (← takeBits 4) + 4
  require (literalCount ≤ 286 && distanceCount ≤ 30)
  let sent ← takeCodeLengths (codeLengthOrder.take n)
  let codeLengths := (List.range 19).map fun symbol => (sent.lookup symbol).getD 0
  require (isComplete codeLengths)
  let total := literalCount + distanceCount
  let lengths ← takeLengths (.ofLengths codeLengths) total (total + 1) []
  let literalLengths := lengths.take literalCount
  let distanceLengths := lengths.drop literalCount
  require (isCode literalLengths && isCode distanceLengths)
  return (.ofLengths literalLengths, .ofLengths distanceLengths)

def takeBlock (fuel : Nat) : Inflate Bool := do
  let last ← takeBit
  match ← takeBits 2 with
  | 0 => storedBlock
  | 1 => takeSymbols fixedLiterals fixedDistances fuel
  | 2 => do
    let (literals, distances) ← takeCodes
    takeSymbols literals distances fuel
  | _ => throw .corrupt
  return last

def takeBlocks (bits : Nat) : (fuel : Nat) → Inflate Unit
  | 0 => throw .starved
  | fuel + 1 => do
    if ← takeBlock bits then pure () else takeBlocks bits fuel

end SectionArchive.Deflate
