import SectionArchive.Bytes
import SectionArchive.Fault
/-!
The storage under a container: bytes and a cursor, with a rule for which operations it refuses. An
operation that is refused changes nothing.
-/

namespace SectionArchive

structure Storage where
  content : Bytes := []
  position : Nat := 0
  /-- Why an operation is refused, if it is. -/
  refuses : StorageOp → Option Fault := fun _ => none

namespace Storage

def refusing (op : Option StorageOp) : StorageOp → Option Fault := fun o =>
  if op = some o then some (.refused o) else none

abbrev Action := EStateM Fault Storage

def ask (op : StorageOp) : Action Unit := fun s =>
  match s.refuses op with
  | some f => .error f s
  | none => .ok () s

def seek (position : Nat) : Action Unit := do
  ask .seek
  if (← get).content.length < position then ask (.reach position)
  modify fun s => { s with position }

/-- Move the cursor to the end; the result is the length of the storage. -/
def seekEnd : Action Nat := do
  ask .seek
  modifyGet fun s => (s.content.length, { s with position := s.content.length })

/-- At most `n` bytes from the cursor on. Nothing is asked of the storage for no bytes. -/
def read (n : Nat) : Action Bytes := do
  if n = 0 then return []
  ask .read
  modifyGet fun s =>
    let got := (s.content.drop s.position).take n
    (got, { s with position := s.position + got.length })

def readToEnd : Action Bytes := do
  ask .read
  modifyGet fun s => (s.content.drop s.position, { s with position := s.content.length })

def write (bs : Bytes) : Action Unit := do
  ask .write
  modify fun s => { s with
    content := s.content.overwrite s.position bs
    position := s.position + bs.length }

def setLength (n : Nat) : Action Unit := do
  ask .setLength
  modify fun s => { s with content := s.content.resize n }

/-- Put an image in place of the whole content: from the start, all of it, and nothing behind. -/
def store (image : Bytes) : Action Unit := do
  seek 0
  write image
  ask .flush
  setLength image.length

end Storage

end SectionArchive
