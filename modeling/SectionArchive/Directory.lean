import SectionArchive.Options
import SectionArchive.Section.Payload
/-!
The directory: the sections of a container in order, each with its header and, when loaded, its
payload. It is a list with an upper bound on its length; removing an entry moves the later ones
down by one.
-/

namespace SectionArchive

structure Entry where
  header : SectionHeader
  /-- The payload, unless it is only on storage. -/
  payload : Option Payload
  /-- Payloads shorter than this are stored. -/
  threshold : Option UInt32
  /-- The flags asked for; those in the header lose their packing below the threshold. -/
  requestedFlags : UInt8
  /-- Whether the header describes bytes on storage. -/
  persisted : Bool

namespace Entry

def ofStored (h : SectionHeader) : Entry where
  header := h
  payload := none
  threshold := none
  requestedFlags := h.flags
  persisted := true

def fresh (template : SectionHeader) (threshold : Option UInt32) : Entry where
  header := { ty := template.ty, flags := template.flags }
  payload := some {}
  threshold
  requestedFlags := template.flags
  persisted := false

def isLoaded (e : Entry) : Bool := e.payload.isSome

def isDirty (e : Entry) : Bool := e.payload.any Payload.dirty

end Entry

structure Directory where
  entries : List Entry := []
  maxSections : UInt32

namespace Directory

def headers (d : Directory) : List SectionHeader := d.entries.map Entry.header

def size (d : Directory) : Nat := d.entries.length

/-- Read `count` headers; the second component is what follows them. A count above the limit is
refused before any byte is read. -/
def load (bs : Bytes) (count maxSections : UInt32) : Except Error (Directory × Bytes) :=
  if maxSections < count then .error (.capacity count.toNat maxSections)
  else do
    let (headers, rest) ← SectionHeader.decodeList count.toNat bs
    return ({ entries := headers.map Entry.ofStored, maxSections }, rest)

def checkHeader (fileSize : UInt64) (index : Nat) (h : SectionHeader) : Except Error Unit := do
  let (packing, _) ← h.selection index
  if packing.isNone ∧ h.csize ≠ h.size then throw (.badFlags index h.flags)
  if fileSize < h.pointer ∨ fileSize < h.stop then
    throw (.sectionBounds index h.pointer h.stop fileSize)

def checkFrom (fileSize : UInt64) : (index : Nat) → List SectionHeader → Except Error Unit
  | _, [] => .ok ()
  | index, h :: rest =>
    match checkHeader fileSize index h with
    | .error e => .error e
    | .ok () => checkFrom fileSize (index + 1) rest

def validate (d : Directory) (fileSize : UInt64) : Except Error Unit :=
  checkFrom fileSize 0 d.headers

def add (d : Directory) (template : SectionHeader) (threshold : Option UInt32) :
    Except Error (Nat × Directory) :=
  if d.maxSections.toNat ≤ d.size then .error (.capacity (d.size + 1) d.maxSections)
  else .ok (d.size, { d with entries := d.entries ++ [.fresh template threshold] })

def entry (d : Directory) (index : Nat) : Except Error Entry :=
  match d.entries[index]? with
  | some e => .ok e
  | none => .error (.unknownSection index)

def header (d : Directory) (index : Nat) : Except Error SectionHeader :=
  (d.entry index).map Entry.header

def remove (d : Directory) (index : Nat) : Except Error (SectionHeader × Directory) :=
  match d.entry index with
  | .error e => .error e
  | .ok e => .ok (e.header, { d with entries := d.entries.eraseIdx index })

def set (d : Directory) (index : Nat) (e : Entry) : Directory :=
  { d with entries := d.entries.set index e }

def findType? (d : Directory) (ty : UInt8) : Option Nat :=
  d.headers.findIdx? fun h => h.ty == ty

end Directory

end SectionArchive
