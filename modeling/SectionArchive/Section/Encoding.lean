import SectionArchive.Codec
import SectionArchive.Format.SectionHeader
/-!
A payload and its packed form. Encoding packs the bytes and records sizes, checksum and effective
flags in the header; decoding unpacks and verifies, and hands out nothing that does not pass. A
header is brought up to date in place, and those who keep the old one pass a copy.
-/

namespace SectionArchive.Section

def check (index : Nat) (kind : Checksum.Kind) (expected actual : UInt32) : Except Error Unit :=
  if kind ≠ .none ∧ expected ≠ actual then .error (.checksum (.payload index) expected actual)
  else .ok ()

def decode (index : Nat) (h : SectionHeader) (packed : Bytes) : Except Error Bytes := do
  let (method, kind) ← h.selection index
  match Codec.decompress method packed h.size.toNat with
  | .error e => throw (.ofCodec e)
  | .ok raw =>
    check index kind h.checksum (Checksum.checksum kind raw)
    return raw

def isBelow (threshold : Option UInt32) (size : Nat) : Bool := threshold.any (size < ·.toNat)

def sealHeader (h : SectionHeader) (kind : Checksum.Kind) (raw packed : Bytes) : SectionHeader :=
  { h with
    size := UInt32.ofNat raw.length
    csize := UInt32.ofNat packed.length
    checksum := Checksum.checksum kind raw }

/-- How a payload of `size` bytes is to be packed, given what its flags select. Below the threshold
it is stored, and the flags in the header give up their packing at once. -/
def settlePacking (threshold : Option UInt32) (size : Nat) (method : Option Method) :
    EStateM Error SectionHeader (Option Method) := do
  if isBelow threshold size then
    modify fun h => { h with flags := Flags.stored h.flags }
    return none
  else return method

/-- Pack a payload and bring its header up to date, step by step: what was done to the header before
a failure remains. -/
def encodeInPlace (index : Nat) (raw : Bytes) (threshold : Option UInt32) :
    EStateM Error SectionHeader Bytes := do
  let (method, kind) ← ofExcept ((← get).selection index)
  if UInt32.size ≤ raw.length then throw (.sectionIo (.payloadTooLong index raw.length))
  let method ← settlePacking threshold raw.length method
  match Codec.compress method raw with
  | .error e => throw (.ofCodec e)
  | .ok packed =>
    if UInt32.size ≤ packed.length then throw (.deflateTooLong index)
    modify fun h => sealHeader h kind raw packed
    return packed

def encode (index : Nat) (raw : Bytes) (h : SectionHeader) (threshold : Option UInt32) :
    Except Error (Bytes × SectionHeader) :=
  match encodeInPlace index raw threshold h with
  | .ok packed h => .ok (packed, h)
  | .error e _ => .error e

end SectionArchive.Section
