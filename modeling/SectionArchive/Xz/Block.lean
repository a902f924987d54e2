import SectionArchive.Lzma.Chunks
import SectionArchive.Xz.Reader
/-!
Reading one block of an xz stream. Its header names the filters, any number of delta filters and
the packing filter behind them, and may state sizes; the data ends with a check of what it unpacks
to.
-/

namespace SectionArchive.Xz

structure Record where
  /-- Bytes of the block without its padding. -/
  unpadded : Nat
  size : Nat
deriving DecidableEq, Repr

inductive Filter
  | delta (distance : Nat)
  | packing (window : Nat)
deriving DecidableEq, Repr

/-- How a block is filtered, outermost first. -/
structure Filters where
  deltas : List Nat
  window : Nat
deriving DecidableEq, Repr

def Filters.ofList? : List Filter → Option Filters
  | [.packing window] => some { deltas := [], window }
  | .delta d :: rest => (ofList? rest).map fun f => { f with deltas := d :: f.deltas }
  | _ => none

structure BlockHeader where
  width : Nat
  packed : Option Nat
  size : Option Nat
  filters : Filters
deriving DecidableEq, Repr

/-- A number inside a block header, which cannot be short of input. -/
def headerNumber (bs : Bytes) : Except Stop (Nat × Bytes) :=
  match decodeNumber 9 0 bs with
  | some r => .ok r
  | none => .error .corrupt

def windowOfByte? (b : UInt8) : Option Nat :=
  let n := b.toNat
  if n < 40 then some (max 4096 ((2 + n % 2) <<< (n / 2 + 11)))
  else if n = 40 then some (UInt32.size - 1)
  else none

def Filter.ofSettings? : (id : Nat) → (settings : Bytes) → Option Filter
  | 0x03, [d] => some (.delta (d.toNat + 1))
  | 0x21, [w] => (windowOfByte? w).map .packing
  | _, _ => none

def takeFilters : (n : Nat) → Bytes → Except Stop (List Filter × Bytes)
  | 0, bs => .ok ([], bs)
  | n + 1, bs => do
    let (id, bs) ← headerNumber bs
    if 0x4000000000000000 ≤ id then throw .corrupt
    let (length, bs) ← headerNumber bs
    match bs.split? length with
    | none => throw .corrupt
    | some (settings, bs) =>
      match Filter.ofSettings? id settings with
      | none => throw .unsupported
      | some filter =>
        let (filters, bs) ← takeFilters n bs
        return (filter :: filters, bs)

def decodeBlockHeader (bs : Bytes) : Except Stop BlockHeader := do
  let body := bs.take (bs.length - 4)
  if crcBytes body ≠ bs.drop (bs.length - 4) then throw .corrupt
  let flags := (body.getD 1 0).toNat
  if flags / 4 % 16 ≠ 0 then throw .unsupported
  let rest := body.drop 2
  let (packed, rest) ← if flags / 64 % 2 = 1 then (headerNumber rest).map fun r => (some r.1, r.2)
    else pure (none, rest)
  if packed = some 0 then throw .corrupt
  let (size, rest) ← if flags / 128 = 1 then (headerNumber rest).map fun r => (some r.1, r.2)
    else pure (none, rest)
  let (filters, rest) ← takeFilters (flags % 4 + 1) rest
  if rest.any (· ≠ 0) then throw .unsupported
  match Filters.ofList? filters with
  | none => throw .unsupported
  | some filters => return { width := bs.length, packed, size, filters }

/-- Unpack the data of a block and undo its filters. The output is kept whatever happens. -/
def takeBlockData (h : BlockHeader) : Read Record := fun s =>
  let unpacker := Lzma.Unpacker.start s.input h.filters.window
  let result := Lzma.Unpacker.takeChunks (s.input.length + 1) unpacker
  let (stop, u) := match result with
    | .ok _ u => (none, u)
    | .error e u => (some e, u)
  let out := h.filters.deltas.reverse.foldl (fun out d => undoDelta d out) u.out
  let s := { s with input := u.input, taken := s.taken + u.taken, out := s.out ++ out }
  if h.packed.any (· < u.taken) ∨ h.size.any (· < out.size) then .error .corrupt s
  else
    match stop with
    | some e => .error e s
    | none =>
      if h.packed.any (· ≠ u.taken) ∨ h.size.any (· ≠ out.size) then .error .corrupt s
      else .ok { unpadded := u.taken, size := out.size } s

def takeBlock (kind : Nat) (first : UInt8) : Read Record := do
  let width := (first.toNat + 1) * 4
  let rest ← Reader.take (width - 1)
  match decodeBlockHeader (first :: rest) with
  | .error e => throw e
  | .ok h =>
    let before := (← get).out.size
    let r ← takeBlockData h
    Reader.takePadding r.unpadded
    let sum ← Reader.take (checkSize kind)
    let data := ((← get).out.extract before (before + r.size)).toList
    Reader.require ((check? kind data).all (· == sum)) .corrupt
    return { r with unpadded := r.unpadded + width + checkSize kind }

end SectionArchive.Xz
