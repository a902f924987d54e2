import SectionArchive.Container.Basic
/-!
Saving. All payloads are loaded and packed before the first byte of the storage is overwritten;
then the image is written as a whole, and only when that is done do the headers in memory change.
So a failed save leaves the container describing the previous layout.
-/

namespace SectionArchive.Container

def layOut : (offset : Nat) → List SectionHeader → List SectionHeader
  | _, [] => []
  | offset, h :: rest =>
    { h with pointer := UInt64.ofNat offset } :: layOut (offset + h.csize.toNat) rest

def packedLength : List SectionHeader → Nat
  | [] => 0
  | h :: rest => h.csize.toNat + packedLength rest

def loadAllWith (interlude : Nat → Container → Container) : (indices : List Nat) → Action Unit
  | [] => pure ()
  | i :: rest => do
    modify (interlude i)
    let _ ← load i
    loadAllWith interlude rest

def loadAll : (indices : List Nat) → Action Unit := loadAllWith fun _ => id

/-- Pack one entry with the flags it was created with. -/
def encodeEntry (index : Nat) (e : Entry) : Except Error (Bytes × SectionHeader) :=
  match e.payload with
  | none => .error (.sectionNotLoaded index)
  | some p => Section.encode index p.bytes { e.header with flags := e.requestedFlags } e.threshold

def encodeFrom : (index : Nat) → List Entry → Except Error (List (Bytes × SectionHeader))
  | _, [] => .ok []
  | index, e :: rest => do
    let packed ← encodeEntry index e
    let more ← encodeFrom (index + 1) rest
    return packed :: more

structure Image where
  header : MainHeader
  headers : List SectionHeader
  payloads : List Bytes

namespace Image

def ofSections (h : MainHeader) (sections : List (Bytes × SectionHeader)) : Image :=
  let start := MainHeader.payloadStart sections.length
  let headers := layOut start (sections.map Prod.snd)
  let h := { h with
    sectionCount := UInt32.ofNat sections.length
    fileSize := UInt64.ofNat (start + packedLength headers) }
  { header := { h with checksum := h.computeChecksum headers }
    headers
    payloads := sections.map Prod.fst }

def bytes (i : Image) : Bytes :=
  i.header.encode ++ i.headers.flatMap SectionHeader.encode ++ i.payloads.flatten

end Image

def settle (e : Entry) (h : SectionHeader) : Entry :=
  { e with header := h, persisted := true, payload := e.payload.map Payload.markClean }

def commit (i : Image) (c : Container) : Container :=
  { c with
    header := i.header
    directory := { c.directory with entries := List.zipWith settle c.directory.entries i.headers }
    modified := false }

def image (c : Container) : Except Error Image := do
  let sections ← encodeFrom 0 c.directory.entries
  return .ofSections c.header sections

/-- Save a container to which something happens in between: one interlude before each section is
loaded, and one more before the image is stored. -/
def saveWith (interlude : Nat → Container → Container) : Action Unit := do
  let version := (← get).header.version
  if !MainHeader.isKnownVersion version then throw (.badVersion version)
  loadAllWith interlude (List.range (← get).directory.size)
  let i ← ofExcept (image (← get))
  modify fun c => interlude c.directory.size c
  onStorage (Section.onStorage (Storage.store i.bytes))
  modify (commit i)

def save : Action Unit := saveWith fun _ => id

def close : Action Unit := do
  if (← get).isModified then save

end SectionArchive.Container
