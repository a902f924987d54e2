import SectionArchive.Error
import SectionArchive.Format.Flags
/-!
The 24-byte header of a section: where its packed payload lies, its sizes, its checksum, its type
and its flags. Decoding takes exactly 24 bytes and ignores the last two, which are reserved; so
encoding what was decoded gives the same bytes with the reserved pair zeroed.
-/

namespace SectionArchive

structure SectionHeader where
  /-- Offset of the packed payload. -/
  pointer : UInt64 := 0
  /-- Bytes of the packed payload. -/
  csize : UInt32 := 0
  /-- Bytes of the payload itself. -/
  size : UInt32 := 0
  /-- Checksum of the payload itself. -/
  checksum : UInt32 := 0
  ty : UInt8 := 0
  /-- Packing and checksum kind. -/
  flags : UInt8 := 0
deriving DecidableEq, Repr, Inhabited

namespace SectionHeader

def width : Nat := 24

def encode (h : SectionHeader) : Bytes :=
  LittleEndian.encode 8 h.pointer.toNat ++ LittleEndian.encode 4 h.csize.toNat ++
    LittleEndian.encode 4 h.size.toNat ++ LittleEndian.encode 4 h.checksum.toNat ++
    [h.ty, h.flags] ++ [0, 0]

@[simp] theorem length_encode (h : SectionHeader) : h.encode.length = width := by
  simp [encode, width]

def field (bs : Bytes) (offset width : Nat) : Nat :=
  LittleEndian.decode ((bs.drop offset).take width)

def ofBlock (bs : Bytes) : SectionHeader where
  pointer := UInt64.ofNat (field bs 0 8)
  csize := UInt32.ofNat (field bs 8 4)
  size := UInt32.ofNat (field bs 12 4)
  checksum := UInt32.ofNat (field bs 16 4)
  ty := UInt8.ofNat (field bs 20 1)
  flags := UInt8.ofNat (field bs 21 1)

def decode (bs : Bytes) : Except Error (SectionHeader × Bytes) :=
  match bs.split? width with
  | none => .error (.io .shortRead)
  | some (block, rest) => .ok (ofBlock block, rest)

/-- Read `n` headers behind those in `done`, which are in reverse order. -/
def decodeMore : (n : Nat) → (bs : Bytes) → (done : List SectionHeader) →
    Except Error (List SectionHeader × Bytes)
  | 0, bs, done => .ok (done.reverse, bs)
  | n + 1, bs, done =>
    match decode bs with
    | .error e => .error e
    | .ok (h, rest) => decodeMore n rest (h :: done)

def decodeList (n : Nat) (bs : Bytes) : Except Error (List SectionHeader × Bytes) :=
  decodeMore n bs []

def selection (h : SectionHeader) (index : Nat) : Except Error (Option Method × Checksum.Kind) :=
  match Flags.packing? h.flags, Flags.checksum? h.flags with
  | some packing, some kind => .ok (packing, kind)
  | _, _ => .error (.badFlags index h.flags)

/-- One past the last byte of the packed payload, at most the largest offset. -/
def stop (h : SectionHeader) : UInt64 :=
  UInt64.ofNat (min (h.pointer.toNat + h.csize.toNat) (UInt64.size - 1))

theorem toNat_stop (h : SectionHeader) :
    h.stop.toNat = min (h.pointer.toNat + h.csize.toNat) (UInt64.size - 1) := by
  simp only [stop, UInt64.toNat_ofNat', UInt64.size]
  omega

theorem pointer_le_stop (h : SectionHeader) : h.pointer.toNat ≤ h.stop.toNat := by
  rw [toNat_stop]
  exact Nat.le_min.2 ⟨Nat.le_add_right .., Nat.le_sub_one_of_lt h.pointer.toNat_lt⟩

end SectionHeader

end SectionArchive
