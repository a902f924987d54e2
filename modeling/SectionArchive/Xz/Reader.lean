import SectionArchive.Stream.Decoding
import SectionArchive.Xz.Framing
/-!
A reader at work on an xz stream: what is still to come, how much is gone, and the output so far.
Its steps take bytes, numbers and padding off the front.
-/

namespace SectionArchive.Xz

structure Reader where
  input : Bytes
  taken : Nat := 0
  out : Array UInt8 := #[]

abbrev Read := EStateM Stop Reader

namespace Reader

def require (condition : Bool) (stop : Stop) : Read Unit :=
  if condition then pure () else throw stop

def take (n : Nat) : Read Bytes := fun s =>
  match s.input.split? n with
  | some (bs, rest) => .ok bs { s with input := rest, taken := s.taken + n }
  | none => .error .starved { s with input := [], taken := s.taken + s.input.length }

def takeByte : Read UInt8 := do return (← take 1).headD 0

def takeNumber : (most place : Nat) → Read Nat
  | 0, _ => throw .corrupt
  | most + 1, place => do
    let b ← takeByte
    if b.toNat < 128 then
      require (b ≠ 0 ∨ place = 0) .corrupt
      return b.toNat <<< (7 * place)
    else return (b.toNat - 128) <<< (7 * place) + (← takeNumber most (place + 1))

def takePadding (length : Nat) : Read Unit := do
  match padding length with
  | [] => pure ()
  | _ :: rest =>
    for _ in rest do require ((← takeByte) == 0) .corrupt
    require ((← takeByte) == 0) .corrupt

end Reader

end SectionArchive.Xz
