/-!
Numbers as they are typed. A numeral is one or more digits, with a sign in front if the reader
allows one; it has no blanks and no separators.
-/

namespace SectionArchive.Numeral

def digit? (base : Nat) (c : Char) : Option Nat :=
  let n :=
    if '0' ≤ c ∧ c ≤ '9' then c.toNat - '0'.toNat
    else if 'a' ≤ c ∧ c ≤ 'f' then c.toNat - 'a'.toNat + 10
    else if 'A' ≤ c ∧ c ≤ 'F' then c.toNat - 'A'.toNat + 10
    else base
  if n < base then some n else none

/-- The value of digits, the highest first, behind those that make `high`. -/
def digits? (base : Nat) : (high : Nat) → List Char → Option Nat
  | high, [] => some high
  | high, c :: rest => do digits? base (high * base + (← digit? base c)) rest

def bare? (base : Nat) : List Char → Option Nat
  | [] => none
  | cs => digits? base 0 cs

def natural? (base : Nat) : List Char → Option Nat
  | '+' :: cs => bare? base cs
  | cs => bare? base cs

def integer? (base : Nat) : List Char → Option Int
  | '-' :: cs => (bare? base cs).map fun n => -(n : Int)
  | cs => (natural? base cs).map Int.ofNat

def byte? (s : String) : Option UInt8 := do
  let n ← match s.toList with
    | '0' :: 'x' :: cs | '0' :: 'X' :: cs => natural? 16 cs
    | cs => natural? 10 cs
  if n < UInt8.size then some (UInt8.ofNat n) else none

def word? (s : String) : Option UInt32 := do
  let n ← integer? 10 s.toList
  if 0 ≤ n ∧ n < UInt32.size then some (UInt32.ofNat n.toNat) else none

end SectionArchive.Numeral
