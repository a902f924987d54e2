import SectionArchive.Directory
import SectionArchive.Section.Reading
/-!
An open container: its storage, its main header, its directory, and a mark that the directory
changed. Opening checks header and directory and loads no payload; nothing but saving touches the
storage's bytes.
-/

namespace SectionArchive

structure Container where
  storage : Storage
  header : MainHeader
  directory : Directory
  /-- Whether sections were added or removed since the container was opened or saved. -/
  modified : Bool

namespace Container

/-- An operation on a container. What it did to the container before failing remains. -/
abbrev Action := EStateM Error Container

def create (storage : Storage) (o : CreateOptions) : Container where
  storage
  header := .fresh o.ty o.version o.typeExt
  directory := { maxSections := o.maxSections }
  modified := true

def ofStorage (maxSections : UInt32) : EStateM Error Storage Container := do
  Section.onStorage (Storage.seek 0)
  let bs ← Section.onStorage Storage.readToEnd
  let (header, rest) ← ofExcept (MainHeader.decode bs)
  let (directory, _) ← ofExcept (Directory.load rest header.sectionCount maxSections)
  ofExcept (header.verifyChecksum directory.headers)
  ofExcept (directory.validate header.fileSize)
  return { storage := ← get, header, directory, modified := false }

def onStorage {α : Type} (m : EStateM Error Storage α) : Action α := fun c =>
  match m c.storage with
  | .ok a storage => .ok a { c with storage }
  | .error e storage => .error e { c with storage }

def look {α : Type} (f : Directory → Except Error α) : Action α := fun c =>
  match f c.directory with
  | .ok a => .ok a c
  | .error e => .error e c

def setEntry (index : Nat) (e : Entry) : Action Unit :=
  modify fun c => { c with directory := c.directory.set index e }

def load (index : Nat) : Action Payload := do
  let e ← look (·.entry index)
  match e.payload with
  | some p => return p
  | none =>
    let raw ← onStorage (Section.read index e.header)
    let p := Payload.ofLoaded raw
    setEntry index { e with payload := some p }
    return p

def loaded (c : Container) (index : Nat) : Except Error Payload := do
  let e ← c.directory.entry index
  match e.payload with
  | some p => return p
  | none => throw (.sectionNotLoaded index)

def edit (index : Nat) (p : Payload) : Action Unit := do
  let e ← look (·.entry index)
  if e.isLoaded then setEntry index { e with payload := some p }
  else throw (.sectionNotLoaded index)

def read (index : Nat) : Action Bytes := do return (← load index).bytes

/-- Write a section's payload to a writer: from memory if it is loaded, else unpacked from storage
without being kept. -/
def copy {σ : Type} (index : Nat) (w : Writer σ) : EStateM Error (Container × σ) Nat :=
  fun (c, sink) =>
    match c.directory.entry index with
    | .error e => .error e (c, sink)
    | .ok e =>
      match e.payload with
      | some p =>
        match w.writeAll p.bytes sink with
        | .error f sink => .error (.sectionIo f) (c, sink)
        | .ok () sink => .ok p.bytes.length (c, sink)
      | none =>
        match Section.stream index e.header w (c.storage, sink) with
        | .error e (storage, sink) => .error e ({ c with storage }, sink)
        | .ok n (storage, sink) => .ok n ({ c with storage }, sink)

/-- Drop a payload from memory. Edits are lost; a section that was never saved becomes empty. -/
def unload (index : Nat) : Action Unit := do
  let e ← look (·.entry index)
  setEntry index { e with payload := if e.persisted then none else some {} }

def add (o : SectionOptions) : Action Nat := do
  let (index, directory) ← look (·.add o.header o.threshold)
  modify fun c => { c with directory, modified := true }
  return index

def write (index : Nat) (data : Bytes) : Action Unit := do
  let e ← look (·.entry index)
  setEntry index { e with payload := some ((e.payload.getD {}).replace data) }

def remove (index : Nat) : Action SectionHeader := do
  let (header, directory) ← look (·.remove index)
  modify fun c => { c with directory, modified := true }
  return header

def isModified (c : Container) : Bool := c.modified || c.directory.entries.any Entry.isDirty

end Container

end SectionArchive
