import SectionArchive.Bytes
import SectionArchive.Fault
/-!
Where packed bytes are read from: they come in slices, and the source may fail where its data
ends.
-/

namespace SectionArchive

structure Source where
  data : Bytes
  /-- How many bytes are handed over at once. -/
  slice : Nat
  /-- What happens instead of the end of the data. -/
  failure : Option Fault := none

namespace Source

def defaultSlice : Nat := 8192

def whole (bs : Bytes) : Source := { data := bs, slice := bs.length }

def buffered (bs : Bytes) : Source := { data := bs, slice := defaultSlice }

/-- The data of the slices before the one that holds the last of the first `used` bytes. -/
def earlier (s : Source) (used : Nat) : Bytes := s.data.take (s.slice * ((used - 1) / s.slice))

end Source

end SectionArchive
