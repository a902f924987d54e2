import SectionArchive.Lzma.RangeDecoder
/-!
The range encoder. It narrows the interval by the same rule as the decoder and keeps its lower
end; what overflows when the lower end moves up is carried into the bytes already written.
-/

namespace SectionArchive.Lzma

structure RangeEncoder where
  /-- The lower end of the interval, below the bytes written. -/
  low : Nat := 0
  range : Nat := UInt32.size - 1
  /-- The bytes written, latest first. -/
  written : Bytes := [0]
  probs : Array Nat

namespace RangeEncoder

def carry : Bytes → Bytes
  | [] => []
  | b :: rest => if b = 255 then 0 :: carry rest else (b + 1) :: rest

def raise (e : RangeEncoder) (by_ : Nat) : RangeEncoder :=
  let low := e.low + by_
  if low < UInt32.size then { e with low } else { e with low := low - UInt32.size, written := carry e.written }

def shift (e : RangeEncoder) : RangeEncoder :=
  { e with low := e.low % 0x1000000 * 256, written := UInt8.ofNat (e.low / 0x1000000) :: e.written }

def normalize (e : RangeEncoder) : RangeEncoder :=
  if e.range < narrow then { e.shift with range := e.range * 256 } else e

def code (e : RangeEncoder) (slot : Option Nat) (bit : Bool) : RangeEncoder :=
  let e := e.normalize
  match slot with
  | some i =>
    let p := e.probs.getD i evenOdds
    let bound := e.range / 2048 * p
    let e := { e with probs := e.probs.setIfInBounds i (adapt p bit) }
    if bit then { e.raise bound with range := e.range - bound } else { e with range := bound }
  | none =>
    let half := e.range / 2
    if bit then { e.raise half with range := half } else { e with range := half }

def run {α : Type} : Program α → List Bool → RangeEncoder → RangeEncoder
  | .done _, _, e => e
  | .ask _ _, [], e => e
  | .ask slot next, b :: bits, e => run (next b) bits (e.code slot b)

def finish (e : RangeEncoder) : Bytes :=
  e.normalize.shift.shift.shift.shift.written.reverse

end RangeEncoder

end SectionArchive.Lzma
