import SectionArchive.Xz.Block
/-!
Reading an xz stream: a header, blocks, an index that repeats the sizes of the blocks, and a footer
that repeats the settings and points back to the index.
-/

namespace SectionArchive.Xz

structure Totals where
  /-- Bytes of the blocks with their padding. -/
  blocks : Nat := 0
  size : Nat := 0
  /-- Bytes that the records take in the index. -/
  listed : Nat := 0
deriving DecidableEq, Repr

namespace Totals

def add (t : Totals) (r : Record) : Totals where
  blocks := t.blocks + r.unpadded + (padding r.unpadded).length
  size := t.size + r.size
  listed := t.listed + (encodeNumber r.unpadded).length + (encodeNumber r.size).length

def ofRecords (records : List Record) : Totals := records.foldl add {}

def within (t limit : Totals) : Bool :=
  t.blocks ≤ limit.blocks && t.size ≤ limit.size && t.listed ≤ limit.listed

end Totals

def smallestBlock : Nat := 5

/-- Read `n` records behind those that come to `sofar`. They may never come to more than the blocks
that were read. -/
def takeRecords (limit : Totals) : (n : Nat) → (sofar : Totals) → Read (List Record)
  | 0, _ => pure []
  | n + 1, sofar => do
    let unpadded ← Reader.takeNumber 9 0
    Reader.require (smallestBlock ≤ unpadded) .corrupt
    let size ← Reader.takeNumber 9 0
    let sofar := sofar.add { unpadded, size }
    Reader.require (sofar.within limit) .corrupt
    return { unpadded, size } :: (← takeRecords limit n sofar)

def takeExactly : Bytes → Read Unit
  | [] => pure ()
  | b :: rest => do
    Reader.require ((← Reader.takeByte) == b) .corrupt
    takeExactly rest

/-- Read the index, of which the first byte is gone and `input` is what follows; the result is its
length. Its records must be those of the blocks, which is seen when the first byte behind the
padding is there. -/
def takeIndex (input : Bytes) (records : List Record) : Read Nat := do
  let before := (← get).taken - 1
  let count ← Reader.takeNumber 9 0
  Reader.require (count == records.length) .corrupt
  let listed ← takeRecords (.ofRecords records) count {}
  Reader.takePadding ((← get).taken - before)
  let length := (← get).taken - before
  let first ← Reader.takeByte
  Reader.require (listed == records) .corrupt
  let sum := crcBytes (0 :: input.take (length - 1))
  Reader.require (some first == sum.head?) .corrupt
  takeExactly sum.tail
  return length + 4

def takeBlocks (kind : Nat) : (fuel : Nat) → (done : List Record) → Read Nat
  | 0, _ => throw .starved
  | fuel + 1, done => do
    let first ← Reader.takeByte
    if first = 0 then takeIndex (← get).input done.reverse
    else
      let r ← takeBlock kind first
      takeBlocks kind fuel (r :: done)

def checkKind (settings : Bytes) : Read Nat := do
  let kind := (settings.getD 1 0).toNat
  Reader.require (settings.getD 0 0 == 0 && kind < 16) .unsupported
  return kind

def takeStream : Read Unit := do
  let header ← Reader.take 12
  Reader.require (header.take 6 == headerMagic) .unrecognized
  let settings := (header.drop 6).take 2
  Reader.require (crcBytes settings == header.drop 8) .corrupt
  let kind ← checkKind settings
  let indexLength ← takeBlocks kind ((← get).input.length + 1) []
  let footer ← Reader.take 12
  Reader.require (footer.drop 10 == footerMagic) .corrupt
  let body := (footer.drop 4).take 6
  Reader.require (crcBytes body == footer.take 4) .corrupt
  let _ ← checkKind (body.drop 4)
  Reader.require ((LittleEndian.decode (body.take 4) + 1) * 4 == indexLength) .corrupt
  Reader.require (body.drop 4 == settings) .corrupt

def decode (bs : Bytes) : Decoding :=
  match takeStream { input := bs } with
  | .ok _ s => { output := s.out.toList, used := s.taken, stop := none }
  | .error stop s => { output := s.out.toList, used := s.taken, stop := some stop }

end SectionArchive.Xz
