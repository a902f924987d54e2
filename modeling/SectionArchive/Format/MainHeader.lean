import SectionArchive.Format.SectionHeader
/-!
The 40-byte main header. Its checksum covers the header itself, with the checksum field zeroed,
and the whole directory behind it; the format version selects the kind of checksum.
-/

namespace SectionArchive

abbrev FixedBytes (n : Nat) := { bs : Bytes // bs.length = n }

def FixedBytes.ofBytes (n : Nat) (bs : Bytes) : FixedBytes n :=
  ⟨bs.resize n, by simp only [Bytes.resize, List.length_append, List.length_take,
    List.length_replicate]; omega⟩

theorem FixedBytes.val_ofBytes {n : Nat} {bs : Bytes} (h : bs.length = n) :
    (FixedBytes.ofBytes n bs).val = bs := by
  simp [FixedBytes.ofBytes, Bytes.resize, ← h]

structure MainHeader where
  signature : FixedBytes 3
  ty : UInt8
  /-- Checksum of header and directory. -/
  checksum : UInt32
  /-- Bytes of the whole container. -/
  fileSize : UInt64
  sectionCount : UInt32
  version : UInt32
  /-- Free for the container's type. -/
  typeExt : FixedBytes 16
deriving DecidableEq

namespace MainHeader

def magic : FixedBytes 3 := ⟨[0x42, 0x50, 0x58], rfl⟩

def width : Nat := 40

def currentVersion : UInt32 := 2

def isKnownVersion (v : UInt32) : Bool := v == 1 || v == 2

def fresh (ty : UInt8) (version : UInt32) (typeExt : FixedBytes 16) : MainHeader where
  signature := magic
  ty
  checksum := 0
  fileSize := UInt64.ofNat width
  sectionCount := 0
  version
  typeExt

def encode (h : MainHeader) : Bytes :=
  h.signature.val ++ [h.ty] ++ LittleEndian.encode 4 h.checksum.toNat ++
    LittleEndian.encode 8 h.fileSize.toNat ++ LittleEndian.encode 4 h.sectionCount.toNat ++
    LittleEndian.encode 4 h.version.toNat ++ h.typeExt.val

@[simp] theorem length_encode (h : MainHeader) : h.encode.length = width := by
  simp [encode, width, h.signature.property, h.typeExt.property]

def take (n : Nat) (bs : Bytes) : Except Error (Bytes × Bytes) :=
  match bs.split? n with
  | none => .error (.io .shortRead)
  | some r => .ok r

/-- Read a main header; the second component is what follows it. A foreign signature is refused
before anything behind it is looked at, an unknown version before the type extension. -/
def decode (bs : Bytes) : Except Error (MainHeader × Bytes) := do
  let (signature, bs) ← take 3 bs
  if signature ≠ magic.val then throw (.badSignature signature)
  let (ty, bs) ← take 1 bs
  let (checksum, bs) ← take 4 bs
  let (fileSize, bs) ← take 8 bs
  let (sectionCount, bs) ← take 4 bs
  let (version, bs) ← take 4 bs
  let version := UInt32.ofNat (LittleEndian.decode version)
  if !isKnownVersion version then throw (.badVersion version)
  let (typeExt, bs) ← take 16 bs
  return ({
    signature := magic
    ty := UInt8.ofNat (LittleEndian.decode ty)
    checksum := UInt32.ofNat (LittleEndian.decode checksum)
    fileSize := UInt64.ofNat (LittleEndian.decode fileSize)
    sectionCount := UInt32.ofNat (LittleEndian.decode sectionCount)
    version
    typeExt := .ofBytes 16 typeExt }, bs)

def checksumKind (h : MainHeader) : Checksum.Kind :=
  if h.version = 1 then .weak else .crc32

/-- The checksum of this header, its own checksum field zeroed, and of the directory. -/
def computeChecksum (h : MainHeader) (directory : List SectionHeader) : UInt32 :=
  let whole := h.checksumKind.start.push { h with checksum := 0 }.encode
  (directory.foldl (fun r s => r.push s.encode) whole).finish

def verifyChecksum (h : MainHeader) (directory : List SectionHeader) : Except Error Unit :=
  let actual := h.computeChecksum directory
  if actual ≠ h.checksum then .error (.checksum .mainHeader h.checksum actual) else .ok ()

def payloadStart (n : Nat) : Nat := width + n * SectionHeader.width

def coversDirectory (h : MainHeader) (len : Nat) : Bool :=
  payloadStart h.sectionCount.toNat ≤ len

/-- Read a main header from the first bytes of a container. The checksum is verified when the
bytes hold the whole directory, and left unchecked otherwise. -/
def decodeLeading (bs : Bytes) : Except Error MainHeader := do
  let (h, rest) ← decode bs
  if h.coversDirectory bs.length then
    let (directory, _) ← SectionHeader.decodeList h.sectionCount.toNat rest
    h.verifyChecksum directory
  return h

end MainHeader

end SectionArchive
