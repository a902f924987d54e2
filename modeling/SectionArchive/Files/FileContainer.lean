import SectionArchive.Container.Save
import SectionArchive.Files.WorkingDirectory
/-!
Containers in files. The storage of such a container is the file at a place of the working
directory: each operation starts from what the file holds and leaves its changes there.
-/

namespace SectionArchive

structure FileContainer where
  place : Place
  container : Container

namespace FileContainer

/-- Offsets into a file are signed. -/
def maxOffset : Nat := 0x7FFFFFFFFFFFFFFF

def readWrite : StorageOp → Option Fault
  | .reach position => if position ≤ maxOffset then none else some (.os .invalidArgument)
  | _ => none

def readOnly : StorageOp → Option Fault
  | .write | .setLength => some (.os .badDescriptor)
  | op => readWrite op

def checkPath (d : WorkingDirectory) (path : String) : Except Error Unit :=
  if path.isEmpty ∨ d.isDirectory path then .error (.invalidPath path) else .ok ()

def openWith (d : WorkingDirectory) (path : String) (refuses : StorageOp → Option Fault)
    (maxSections : UInt32) : Except Error FileContainer := do
  checkPath d path
  match d.openFile path with
  | .error f => throw (.fileOpen path f)
  | .ok (place, content) =>
    match Container.ofStorage maxSections { content, refuses } with
    | .ok container _ => return { place, container }
    | .error e _ => throw e

def openPath (d : WorkingDirectory) (path : String) (maxSections : UInt32) :
    Except Error FileContainer :=
  openWith d path readOnly maxSections

def openPathWritable (d : WorkingDirectory) (path : String) : Except Error FileContainer :=
  openWith d path readWrite defaultMaxSections

def createPath (d : WorkingDirectory) (path : String) (o : CreateOptions) :
    Except Error (FileContainer × WorkingDirectory) := do
  checkPath d path
  match d.createFile path with
  | .error f => throw (.fileCreate path f)
  | .ok (place, d) => return ({ place, container := .create { refuses := readWrite } o }, d)

/-- The container with its storage as the file is now. -/
def refresh (d : WorkingDirectory) (f : FileContainer) : FileContainer :=
  let storage := { f.container.storage with content := d.content f.place }
  { f with container := { f.container with storage } }

def flush (d : WorkingDirectory) (f : FileContainer) : WorkingDirectory :=
  if d.content f.place = f.container.storage.content then d
  else d.put f.place (.file f.container.storage.content)

def run {α : Type} (m : Container.Action α) (d : WorkingDirectory) (f : FileContainer) :
    Except Error α × WorkingDirectory × FileContainer :=
  match m (f.refresh d).container with
  | .ok a container => (.ok a, flush d { f with container }, { f with container })
  | .error e container => (.error e, flush d { f with container }, { f with container })

/-- Write a section's payload over the empty file at a place. What was delivered before a failure
stays in that file. -/
def copyInto (index : Nat) (target : Place) (d : WorkingDirectory) (f : FileContainer) :
    Except Error Nat × WorkingDirectory × FileContainer :=
  match Container.copy index Sink.write ((f.refresh d).container, .unlimited) with
  | .ok n (container, sink) => (.ok n, d.put target (.file sink.bytes), { f with container })
  | .error e (container, sink) => (.error e, d.put target (.file sink.bytes), { f with container })

end FileContainer

end SectionArchive
