/-!
Procedures that ask for bits. Each question names the slot of an adaptive probability, or none when
both answers are equally likely. A decoder runs a procedure by answering from packed data; an
encoder runs the same procedure with the answers it wants to be given.
-/

namespace SectionArchive.Lzma

/-- A procedure that asks for bits and ends with a value. -/
inductive Program (α : Type)
  | done (value : α)
  | ask (slot : Option Nat) (next : Bool → Program α)

namespace Program

def bind {α β : Type} : Program α → (α → Program β) → Program β
  | .done a, f => f a
  | .ask slot next, f => .ask slot fun b => (next b).bind f

instance : Monad Program where
  pure := .done
  bind := bind

def flag (slot : Nat) : Program Bool := .ask (some slot) .done

/-- Answer the questions from a list; the value, what was asked and answered, and the answers left
over. -/
def answer {α : Type} : Program α → List Bool → Option (α × List (Option Nat × Bool) × List Bool)
  | .done a, bits => some (a, [], bits)
  | .ask _ _, [] => none
  | .ask slot next, b :: bits =>
    (answer (next b) bits).map fun r => (r.1, (slot, b) :: r.2.1, r.2.2)

/-- A number of `width` bits, highest first, each with a slot for the bits before it. -/
def tree (base : Nat) : (width symbol : Nat) → Program Nat
  | 0, symbol => .done symbol
  | w + 1, symbol => .ask (some (base + symbol)) fun b => tree base w (2 * symbol + b.toNat)

def number (base width : Nat) : Program Nat :=
  (tree base width 1).bind fun symbol => .done (symbol - 1 <<< width)

def reversed (base : Nat) : (width symbol : Nat) → Program Nat
  | 0, _ => .done 0
  | w + 1, symbol => .ask (some (base + symbol)) fun b =>
    (reversed base w (2 * symbol + b.toNat)).bind fun high => .done (b.toNat + 2 * high)

def uniform : (width : Nat) → Program Nat
  | 0 => .done 0
  | w + 1 => .ask none fun b => (uniform w).bind fun low => .done (b.toNat <<< w + low)

end Program

def highFirst : (width n : Nat) → List Bool
  | 0, _ => []
  | w + 1, n => n.testBit w :: highFirst w n

def lowFirst : (width n : Nat) → List Bool
  | 0, _ => []
  | w + 1, n => n.testBit 0 :: lowFirst w (n / 2)

end SectionArchive.Lzma
