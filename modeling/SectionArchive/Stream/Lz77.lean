import SectionArchive.Bytes
/-!
Replacing repetitions by references to earlier bytes. A token is a byte or a copy of some length
from some distance back; expanding tokens is the meaning of all of them, and the search compares
the bytes before it emits a copy, so the tokens of a text expand to that text.
-/

namespace SectionArchive.Lz77

inductive Token
  | literal (byte : UInt8)
  | copy (length distance : Nat)
deriving DecidableEq, Repr

/-- Append `length` bytes, each the one `distance` before the end. A copy may overlap itself. -/
def copyFrom (distance : Nat) : (length : Nat) → Array UInt8 → Array UInt8
  | 0, out => out
  | n + 1, out => copyFrom distance n (out.push (out.getD (out.size - distance) 0))

def Token.apply (out : Array UInt8) : Token → Array UInt8
  | .literal b => out.push b
  | .copy length distance => copyFrom distance length out

def expand (tokens : List Token) : Array UInt8 := tokens.foldl Token.apply #[]

structure Limits where
  minLength : Nat
  maxLength : Nat
  maxDistance : Nat

/-- How many bytes from `i` on and from `j` on agree, at most `limit`. -/
def agreement (raw : Array UInt8) : (i j limit : Nat) → Nat
  | _, _, 0 => 0
  | i, j, n + 1 =>
    if i < raw.size ∧ raw.getD i 0 = raw.getD j 0 then agreement raw (i + 1) (j + 1) n + 1 else 0

def bucket (raw : Array UInt8) (i : Nat) : Nat :=
  let key := (raw.getD i 0).toUInt32 ||| ((raw.getD (i + 1) 0).toUInt32 <<< 8) |||
    ((raw.getD (i + 2) 0).toUInt32 <<< 16)
  ((key * 2654435761) >>> 16).toNat

def candidates (raw : Array UInt8) : Array Nat :=
  (Nat.fold raw.size (fun i _ (s : Array Nat × Array Nat) =>
    let b := bucket raw i
    let found := s.1.getD b 0
    (s.1.setIfInBounds b (i + 1), s.2.push found))
    (Array.replicate 65536 0, Array.emptyWithCapacity raw.size)).2

/-- The copy to make at `i`, if the earlier position that `found` names is near and agrees long
enough without going past `stop`. -/
def copyAt (limits : Limits) (raw : Array UInt8) (found i stop : Nat) : Option (Nat × Nat) :=
  if found = 0 ∨ i < found ∨ limits.maxDistance < i + 1 - found then none
  else
    let n := agreement raw i (found - 1) (min limits.maxLength (stop - i))
    if n < limits.minLength ∨ n = 0 then none else some (n, i + 1 - found)

def tokensFrom (limits : Limits) (raw : Array UInt8) (found : Array Nat) (stop i : Nat)
    (done : Array Token) : Array Token :=
  if _h : i < stop then
    match hc : copyAt limits raw (found.getD i 0) i stop with
    | some (length, distance) =>
      tokensFrom limits raw found stop (i + length) (done.push (.copy length distance))
    | none => tokensFrom limits raw found stop (i + 1) (done.push (.literal (raw.getD i 0)))
  else done
termination_by stop - i
decreasing_by
  · have : length ≠ 0 := by
      simp only [copyAt] at hc
      split at hc
      · simp at hc
      · split at hc
        · simp at hc
        · next hn =>
          simp only [Option.some.injEq, Prod.mk.injEq] at hc
          omega
    omega
  · omega

end SectionArchive.Lz77
