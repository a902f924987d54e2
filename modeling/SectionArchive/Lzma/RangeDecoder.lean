import SectionArchive.Lzma.Program
import SectionArchive.Stream.Decoding
/-!
The range decoder. A 32-bit interval is split in proportion to the probability of a zero bit, and
the packed data tells on which side they lie; when the interval gets narrow, both move up by a
byte. Probabilities are eleven-bit numbers that follow the bits seen.
-/

namespace SectionArchive.Lzma

/-- Intervals narrower than this are widened by a byte. -/
def narrow : Nat := 0x1000000

def evenOdds : Nat := 1024

def adapt (p : Nat) (bit : Bool) : Nat :=
  if bit then p - p / 32 else p + (2048 - p) / 32

structure RangeDecoder where
  input : Bytes
  taken : Nat
  /-- How many more bytes may be taken. -/
  budget : Nat
  range : Nat
  code : Nat
  probs : Array Nat

abbrev RangeDecode := EStateM Stop RangeDecoder

namespace RangeDecoder

def takeByte : RangeDecode UInt8 := fun s =>
  match s.input with
  | [] => .error .starved s
  | b :: rest =>
    match s.budget with
    | 0 => .error .corrupt { s with taken := s.taken + 1 }
    | budget + 1 => .ok b { s with input := rest, taken := s.taken + 1, budget }

def normalize : RangeDecode Unit := do
  if (← get).range < narrow then
    let b ← takeByte
    modify fun s => { s with range := s.range * 256, code := (s.code * 256 + b.toNat) % UInt32.size }

/-- Start on new data: a zero byte, then four bytes to compare the interval with. -/
def start : RangeDecode Unit := do
  let zero ← takeByte
  if zero ≠ 0 then throw .corrupt
  let a ← takeByte
  let b ← takeByte
  let c ← takeByte
  let d ← takeByte
  modify fun s => { s with
    range := UInt32.size - 1
    code := ((a.toNat * 256 + b.toNat) * 256 + c.toNat) * 256 + d.toNat }

def decide (slot : Option Nat) : RangeDecode Bool := do
  normalize
  match slot with
  | some i =>
    modifyGet fun s =>
      let p := s.probs.getD i evenOdds
      let bound := s.range / 2048 * p
      if s.code < bound then
        (false, { s with range := bound, probs := s.probs.setIfInBounds i (adapt p false) })
      else
        (true, { s with
          range := s.range - bound
          code := s.code - bound
          probs := s.probs.setIfInBounds i (adapt p true) })
  | none =>
    modifyGet fun s =>
      let half := s.range / 2
      let above := (s.code + UInt32.size - half) % UInt32.size
      if above < UInt32.size / 2 then (true, { s with range := half, code := above })
      else (false, { s with range := half })

def run {α : Type} : Program α → RangeDecode α
  | .done a => pure a
  | .ask slot next => do
    let b ← decide slot
    run (next b)

/-- End on the data: the interval must sit just on the packed number, and all data be used. -/
def finish : RangeDecode Unit := do
  normalize
  let s ← get
  if s.code ≠ 0 ∨ s.budget ≠ 0 then throw .corrupt

end RangeDecoder

end SectionArchive.Lzma
