import SectionArchive.Fault
import SectionArchive.Text.Digits
/-!
Errors of the container engine. Each cause has one wording and belongs to exactly one numbered
code; the numbers are frozen, and several causes may share one.
-/

namespace SectionArchive

/-- The stable codes, in the order of their numbers. -/
inductive ErrorCode
  | none
  | invalidPath
  | fileOpen
  | fileCreate
  | sectionIo
  | checksum
  | io
  | badVersion
  | badSignature
  | inflate
  | deflate
  | sectionNotLoaded
  | capacity
deriving DecidableEq, Repr

namespace ErrorCode

/-- All codes; a code's number is its place. -/
def all : List ErrorCode :=
  [.none, .invalidPath, .fileOpen, .fileCreate, .sectionIo, .checksum, .io, .badVersion,
    .badSignature, .inflate, .deflate, .sectionNotLoaded, .capacity]

def toNat (c : ErrorCode) : Nat := all.idxOf c

def ofNat? (n : Nat) : Option ErrorCode := all[n]?

theorem ofNat?_toNat (c : ErrorCode) : ofNat? c.toNat = some c := by cases c <;> rfl

theorem toNat_getElem_all (m : Fin all.length) : (all[m]).toNat = m := by
  revert m; decide

theorem toNat_of_ofNat? {n : Nat} {c : ErrorCode} (h : ofNat? n = some c) : c.toNat = n := by
  obtain ⟨hn, rfl⟩ := List.getElem?_eq_some_iff.1 h
  exact toNat_getElem_all ⟨n, hn⟩

end ErrorCode

inductive ChecksumSite
  | mainHeader
  | payload (index : Nat)
deriving DecidableEq, Repr

def ChecksumSite.message : ChecksumSite → String
  | .mainHeader => "main header"
  | .payload index => s!"section {index}"

inductive CodecError
  | compression (fault : StreamFault)
  | decompression (fault : StreamFault)
  /-- The stream holds `actual` bytes, or more than `expected`. -/
  | sizeMismatch (expected actual : Nat)
deriving DecidableEq, Repr

def CodecError.message : CodecError → String
  | .compression f => "Compression error: " ++ f.message
  | .decompression f => "Decompression error: " ++ f.message
  | .sizeMismatch expected actual =>
    s!"Decompressed size mismatch: expected {expected} bytes, got {actual}"

inductive Error
  | invalidPath (path : String)
  | fileOpen (path : String) (source : Fault)
  | fileCreate (path : String) (source : Fault)
  | unknownSection (index : Nat)
  | sectionIo (fault : Fault)
  | checksum (site : ChecksumSite) (expected actual : UInt32)
  | io (fault : Fault)
  | sectionBounds (index : Nat) (start stop fileSize : UInt64)
  | badFlags (index : Nat) (flags : UInt8)
  | badVersion (version : UInt32)
  | badSignature (signature : Bytes)
  | inflate (fault : StreamFault)
  /-- A payload that unpacks to the wrong size. -/
  | inflateSize (expected actual : Nat)
  | deflate (fault : StreamFault)
  /-- A packed payload too long for the size field. -/
  | deflateTooLong (index : Nat)
  | sectionNotLoaded (index : Nat)
  | capacity (requested : Nat) (limit : UInt32)
deriving DecidableEq, Repr

namespace Error

def ofCodec : CodecError → Error
  | .compression f => .deflate f
  | .decompression f => .inflate f
  | .sizeMismatch expected actual => .inflateSize expected actual

def code : Error → ErrorCode
  | .invalidPath _ => .invalidPath
  | .fileOpen .. => .fileOpen
  | .fileCreate .. => .fileCreate
  | .unknownSection _ | .sectionIo _ => .sectionIo
  | .checksum .. => .checksum
  | .io _ | .sectionBounds .. | .badFlags .. => .io
  | .badVersion _ => .badVersion
  | .badSignature _ => .badSignature
  | .inflate _ | .inflateSize .. => .inflate
  | .deflate _ | .deflateTooLong _ => .deflate
  | .sectionNotLoaded _ => .sectionNotLoaded
  | .capacity .. => .capacity

def word (x : UInt32) : String := "0x" ++ Digits.hexPadded 8 x.toNat

def packingDetail : Error → String
  | .inflate f => f.message
  | .inflateSize expected actual => s!"decompressed {actual} bytes, expected {expected}"
  | .deflate f => f.message
  | .deflateTooLong index => s!"section {index} compressed size exceeds 4294967295"
  | _ => ""

def message : Error → String
  | .invalidPath path => "Invalid container path: " ++ path
  | .fileOpen path source => "Cannot open " ++ path ++ ": " ++ source.message
  | .fileCreate path source => "Cannot create " ++ path ++ ": " ++ source.message
  | .unknownSection index => s!"Section {index} does not exist"
  | .sectionIo fault => "Section I/O error: " ++ fault.message
  | .checksum site expected actual =>
    "Checksum mismatch in " ++ site.message ++ ": stored " ++ word expected ++ ", computed " ++
      word actual
  | .io fault => "IO error: " ++ fault.message
  | .sectionBounds index start stop fileSize =>
    s!"Section {index} spans {start}..{stop}, past end of container ({fileSize} B)"
  | .badFlags index flags =>
    s!"Section {index} has contradictory flags 0x" ++ Digits.hexPadded 2 flags.toNat
  | .badVersion version => s!"Unsupported version: {version}"
  | .badSignature signature =>
    "Invalid signature [" ++
      ", ".intercalate (signature.map fun b => Digits.hexPadded 2 b.toNat) ++ "]"
  | e@(.inflate _) | e@(.inflateSize ..) => "Decompression error: " ++ e.packingDetail
  | e@(.deflate _) | e@(.deflateTooLong _) => "Compression error: " ++ e.packingDetail
  | .sectionNotLoaded index => s!"Section {index} is not loaded"
  | .capacity requested limit =>
    s!"Directory capacity exceeded: {requested} sections, limit {limit}"

end Error

end SectionArchive
