import SectionArchive.Container.Basic
import SectionArchive.Text.Digits
import SectionArchive.Text.Json
/-!
What is shown of a container: the directory as a table, the main header line by line, or both as a
JSON document.
-/

namespace SectionArchive.Report

/-- Cells in columns of fixed width, numbers to the right, the last cell as long as it is. -/
def row (index ty pointer size packed codec checksum : String) : String :=
  Digits.padLeft 5 index ++ " " ++ Digits.padLeft 6 ty ++ " " ++ Digits.padLeft 12 pointer ++ " " ++
    Digits.padLeft 12 size ++ " " ++ Digits.padLeft 12 packed ++ "  " ++ Digits.padRight 8 codec ++
    " " ++ checksum

def heading : String := row "Index" "Type" "Pointer" "Size" "Compressed" "Codec" "Checksum"

def codecLabel (flags : UInt8) : String :=
  match Flags.packing? flags with
  | some (some m) => m.name
  | some none => "stored"
  | none => "invalid"

def checksumLabel (h : SectionHeader) : String :=
  match Flags.checksum? h.flags with
  | some .none => "-"
  | some kind => kind.name ++ " " ++ Digits.hexPadded 8 h.checksum.toNat
  | none => "invalid"

def sectionRow (index : Nat) (h : SectionHeader) : String :=
  row (toString index) ("0x" ++ Digits.hex h.ty.toNat) (toString h.pointer) (toString h.size)
    (toString h.csize) (codecLabel h.flags) (checksumLabel h)

def table (headers : List SectionHeader) : List String :=
  heading :: headers.mapIdx sectionRow

def stringSectionType : UInt8 := 0xFF

def field (name value : String) : String := "  " ++ Digits.padRight 15 name ++ value

def summary (path : String) (c : Container) : List String :=
  let h := c.header
  ["── BPX Container ────────────────────────────────────────",
    field "Path" path,
    field "Version" (toString h.version),
    field "Type" ("0x" ++ Digits.hexPadded 2 h.ty.toNat),
    field "File size" (toString h.fileSize ++ " B"),
    field "Sections" (toString h.sectionCount),
    field "Checksum" (Error.word h.checksum ++ " (" ++ h.checksumKind.name ++ ")"),
    field "Type ext" (Digits.hexBytes h.typeExt.val)] ++
  match c.directory.findType? stringSectionType with
  | some i => [field "String section" (toString i)]
  | none => []

def bytesValue (bs : Bytes) : Json.Value := .array (bs.map fun b => .number b.toNat)

def mainHeaderValue (h : MainHeader) : Json.Value :=
  .object [("signature", bytesValue h.signature.val), ("ty", .number h.ty.toNat),
    ("checksum", .number h.checksum.toNat), ("file_size", .number h.fileSize.toNat),
    ("section_count", .number h.sectionCount.toNat), ("version", .number h.version.toNat),
    ("type_ext", bytesValue h.typeExt.val)]

def sectionHeaderValue (h : SectionHeader) : Json.Value :=
  .object [("pointer", .number h.pointer.toNat), ("csize", .number h.csize.toNat),
    ("size", .number h.size.toNat), ("checksum", .number h.checksum.toNat),
    ("ty", .number h.ty.toNat), ("flags", .number h.flags.toNat)]

def document (c : Container) : Json.Value :=
  .object [("header", mainHeaderValue c.header),
    ("sections", .array (c.directory.headers.map sectionHeaderValue))]

end SectionArchive.Report
