import SectionArchive.Checksum.Kind
/-!
The flags byte of a section: one pair of bits selects how the payload is packed, another which
checksum it carries. Both bits of a pair at once is no selection; the four high bits are free.
-/

namespace SectionArchive

inductive Method
  | zlib
  | xz
deriving DecidableEq, Repr

namespace Method

def name : Method → String
  | .zlib => "zlib"
  | .xz => "xz"

def ofName? (s : String) : Option Method :=
  [Method.zlib, .xz].find? fun m => LetterCase.matchesName s m.name

def flagBit : Method → UInt8
  | .zlib => 0x1
  | .xz => 0x2

end Method

def Checksum.Kind.flagBits : Checksum.Kind → UInt8
  | .none => 0
  | .crc32 => 0x4
  | .weak => 0x8

namespace Flags

def packingMask : UInt8 := 0x3

/-- The packing a flags byte selects: `some none` is stored, `none` is a contradiction. -/
def packing? (flags : UInt8) : Option (Option Method) :=
  match flags &&& 0x1 != 0, flags &&& 0x2 != 0 with
  | false, false => some none
  | true, false => some (some .zlib)
  | false, true => some (some .xz)
  | true, true => none

def checksum? (flags : UInt8) : Option Checksum.Kind :=
  match flags &&& 0x4 != 0, flags &&& 0x8 != 0 with
  | false, false => some .none
  | true, false => some .crc32
  | false, true => some .weak
  | true, true => none

def stored (flags : UInt8) : UInt8 := flags &&& ~~~packingMask

def select (packing : Option Method) (kind : Checksum.Kind) : UInt8 :=
  (packing.map Method.flagBit).getD 0 ||| kind.flagBits

theorem packing?_select (packing : Option Method) (kind : Checksum.Kind) :
    packing? (select packing kind) = some packing := by
  cases packing with
  | none => cases kind <;> rfl
  | some m => cases m <;> cases kind <;> rfl

theorem checksum?_select (packing : Option Method) (kind : Checksum.Kind) :
    checksum? (select packing kind) = some kind := by
  cases packing with
  | none => cases kind <;> rfl
  | some m => cases m <;> cases kind <;> rfl

end Flags

end SectionArchive
