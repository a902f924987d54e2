import SectionArchive.Bytes
import SectionArchive.Lzma.Program
import SectionArchive.Stream.Lz77
/-!
LZMA packets. A packet is a byte, or a copy whose distance is new or one of the last four. Which
probabilities code it depends on the packets before it, on the position, and on bytes already
there; `Packet.program` is the procedure that reads a packet, and `answers` are the bits that make
it read a given byte or copy.
-/

namespace SectionArchive.Lzma

/-- The settings of a stream: how many bits of the previous byte and of the position take part. -/
structure Settings where
  /-- High bits of the previous byte that select the probabilities of a byte. -/
  lc : Nat
  /-- Low bits of the position that do. -/
  lp : Nat
  /-- Low bits of the position that select the probabilities of a packet. -/
  pb : Nat
deriving DecidableEq, Repr

namespace Settings

def usual : Settings := { lc := 3, lp := 0, pb := 2 }

def toByte (s : Settings) : UInt8 := UInt8.ofNat ((s.pb * 5 + s.lp) * 9 + s.lc)

def ofByte? (b : UInt8) : Option Settings :=
  let n := b.toNat
  let s : Settings := { lc := n % 9, lp := n / 9 % 5, pb := n / 45 }
  if n ≤ 224 ∧ s.lc + s.lp ≤ 4 then some s else none

end Settings

/-! ### Slots -/

namespace Slot

def isCopy (state posState : Nat) : Nat := state * 16 + posState

def isRepeat (state : Nat) : Nat := 192 + state

def notLast (state : Nat) : Nat := 204 + state

def notSecond (state : Nat) : Nat := 216 + state

def isOldest (state : Nat) : Nat := 228 + state

def isLong (state posState : Nat) : Nat := 240 + state * 16 + posState

def distanceRange (lengthClass : Nat) : Nat := 432 + lengthClass * 64

def distancePlace : Nat := 688

def distanceLow : Nat := 816

def newLength : Nat := 832

def repeatLength : Nat := 1346

def byte (context : Nat) : Nat := 1860 + 0x300 * context

def count (s : Settings) : Nat := byte (1 <<< (s.lc + s.lp))

end Slot

/-! ### Packets -/

inductive Packet
  | literal (byte : UInt8)
  /-- A copy from a distance not used lately. -/
  | fresh (length distance : Nat)
  /-- A copy from one of the last four distances, the latest being number zero. -/
  | again (which length : Nat)
  /-- A copy of one byte from the latest distance. -/
  | short
deriving DecidableEq, Repr

/-- The kinds of the latest packets, as one of twelve states, and the last four distances. -/
structure History where
  state : Nat := 0
  rep0 : Nat := 1
  rep1 : Nat := 1
  rep2 : Nat := 1
  rep3 : Nat := 1
deriving DecidableEq, Repr

namespace History

def afterByte (h : History) : Bool := h.state < 7

/-- The distance a copy takes, its length, and the history behind it; `none` for a byte. -/
def step (h : History) : Packet → Option (Nat × Nat) × History
  | .literal _ =>
    (none, { h with state :=
      if h.state < 4 then 0 else if h.state < 10 then h.state - 3 else h.state - 6 })
  | .fresh length distance =>
    (some (length, distance), {
      state := if h.afterByte then 7 else 10
      rep0 := distance
      rep1 := h.rep0
      rep2 := h.rep1
      rep3 := h.rep2 })
  | .again which length =>
    let state := if h.afterByte then 8 else 11
    match which with
    | 0 => (some (length, h.rep0), { h with state })
    | 1 => (some (length, h.rep1), { h with state, rep0 := h.rep1, rep1 := h.rep0 })
    | 2 => (some (length, h.rep2),
        { h with state, rep0 := h.rep2, rep1 := h.rep0, rep2 := h.rep1 })
    | _ => (some (length, h.rep3),
        { state, rep0 := h.rep3, rep1 := h.rep0, rep2 := h.rep1, rep3 := h.rep2 })
  | .short => (some (1, h.rep0), { h with state := if h.afterByte then 9 else 11 })

end History

structure Context where
  settings : Settings
  history : History
  /-- Bytes since the dictionary was last reset. -/
  position : Nat
  previous : UInt8
  /-- The byte at the latest distance. -/
  matched : UInt8

namespace Context

def posState (c : Context) : Nat := c.position % 1 <<< c.settings.pb

def byteSlots (c : Context) : Nat :=
  Slot.byte ((c.position % 1 <<< c.settings.lp) <<< c.settings.lc +
    c.previous.toNat >>> (8 - c.settings.lc))

end Context

/-- The bits of a byte, highest first. As long as they agree with the guide, the guide's next bit
takes part in the choice of the slot. -/
def byteProgram (base : Nat) : (width symbol : Nat) → (guide : Option Nat) → Program Nat
  | 0, symbol, _ => .done symbol
  | w + 1, symbol, none =>
    .ask (some (base + symbol)) fun b => byteProgram base w (2 * symbol + b.toNat) none
  | w + 1, symbol, some g =>
    let expected := g.testBit w
    .ask (some (base + 0x100 * (1 + expected.toNat) + symbol)) fun b =>
      byteProgram base w (2 * symbol + b.toNat) (if b = expected then some g else none)

def lengthProgram (base posState : Nat) : Program Nat := do
  if !(← Program.flag base) then
    return (← Program.number (base + 2 + posState * 8) 3) + 2
  else if !(← Program.flag (base + 1)) then
    return (← Program.number (base + 130 + posState * 8) 3) + 10
  else
    return (← Program.number (base + 258) 8) + 18

/-- The distance of a copy, from one. Ranges double in width every second; the place in a range is
coded with slots of its own, or for the far ranges mostly without. -/
def distanceProgram (length : Nat) : Program Nat := do
  let range ← Program.number (Slot.distanceRange (min (length - 2) 3)) 6
  if range < 4 then return range + 1
  else
    let width := range / 2 - 1
    let first := (2 + range % 2) <<< width
    if range < 14 then
      return first + (← Program.reversed (Slot.distancePlace + first - range) width 1) + 1
    else
      let high ← Program.uniform (width - 4)
      let low ← Program.reversed Slot.distanceLow 4 1
      return first + high * 16 + low + 1

def repeatProgram (state posState : Nat) : Program Packet := do
  if !(← Program.flag (Slot.notLast state)) then
    if !(← Program.flag (Slot.isLong state posState)) then return .short
    else return .again 0 (← lengthProgram Slot.repeatLength posState)
  else if !(← Program.flag (Slot.notSecond state)) then
    return .again 1 (← lengthProgram Slot.repeatLength posState)
  else if !(← Program.flag (Slot.isOldest state)) then
    return .again 2 (← lengthProgram Slot.repeatLength posState)
  else
    return .again 3 (← lengthProgram Slot.repeatLength posState)

def Packet.program (c : Context) : Program Packet := do
  let state := c.history.state
  if !(← Program.flag (Slot.isCopy state c.posState)) then
    let guide := if c.history.afterByte then none else some c.matched.toNat
    return .literal (UInt8.ofNat (← byteProgram c.byteSlots 8 1 guide))
  else if !(← Program.flag (Slot.isRepeat state)) then
    let length ← lengthProgram Slot.newLength c.posState
    return .fresh length (← distanceProgram length)
  else
    repeatProgram state c.posState

/-! ### Answers -/

def lengthAnswers (length : Nat) : List Bool :=
  if length < 10 then false :: highFirst 3 (length - 2)
  else if length < 18 then [true, false] ++ highFirst 3 (length - 10)
  else [true, true] ++ highFirst 8 (length - 18)

def rangeOf (d : Nat) : Nat :=
  if d < 4 then d else 2 * Nat.log2 d + (d >>> (Nat.log2 d - 1)) % 2

def distanceAnswers (distance : Nat) : List Bool :=
  let d := distance - 1
  let range := rangeOf d
  let width := range / 2 - 1
  let place := d - (2 + range % 2) <<< width
  highFirst 6 range ++
    (if range < 4 then []
    else if range < 14 then lowFirst width place
    else highFirst (width - 4) (place / 16) ++ lowFirst 4 place)

def answers : Lz77.Token → List Bool
  | .literal b => false :: highFirst 8 b.toNat
  | .copy length distance => [true, false] ++ lengthAnswers length ++ distanceAnswers distance

end SectionArchive.Lzma
