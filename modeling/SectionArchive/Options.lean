import SectionArchive.Format.MainHeader
/-!
What a caller chooses when creating or opening a container and when adding a section, with the
defaults.
-/

namespace SectionArchive

def defaultMaxSections : UInt32 := 0xFFFF

structure CreateOptions where
  ty : UInt8 := 0
  version : UInt32 := MainHeader.currentVersion
  typeExt : FixedBytes 16 := .ofBytes 16 []
  maxSections : UInt32 := defaultMaxSections

structure SectionOptions where
  ty : UInt8 := 0
  packing : Option Method := none
  checksum : Checksum.Kind := .none
  /-- Payloads shorter than this are stored, whatever the packing. -/
  threshold : Option UInt32 := none

namespace SectionOptions

def flags (o : SectionOptions) : UInt8 := Flags.select o.packing o.checksum

def header (o : SectionOptions) : SectionHeader := { ty := o.ty, flags := o.flags }

end SectionOptions

end SectionArchive
