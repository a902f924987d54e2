import SectionArchive.Bytes
import SectionArchive.Fault
import SectionArchive.Files.Path
/-!
A working directory: files and directories by name. Places are lists of names, counted from the
working directory or from the root; how the two lie to each other is not known, and neither is what
else the directories above hold. There are no links, so a place has one path, up to dots.
-/

namespace SectionArchive

inductive Node
  | file (content : Bytes)
  | directory
deriving DecidableEq, Repr

/-- A place below, or by leading pairs of dots above, the working directory; a slash in front stands
for the root. -/
abbrev Place := List String

namespace Place

def root : Place := ["/"]

/-- Whether this is the working directory, the root, or a directory above the working directory. -/
def isAnchor (place : Place) : Bool := place = root || place.all (· = "..")

def above (place : Place) : Place :=
  if place = root then root
  else if place.all (· = "..") then ".." :: place
  else place.dropLast

def path : Place → String
  | "/" :: names => "/" ++ "/".intercalate names
  | names => "/".intercalate names

end Place

/-- The files and directories below a working directory. Each place occurs once. -/
structure WorkingDirectory where
  nodes : List (Place × Node) := []
deriving Repr

namespace WorkingDirectory

def node? (d : WorkingDirectory) (place : Place) : Option Node :=
  if place.isAnchor then some .directory else d.nodes.lookup place

def put (d : WorkingDirectory) (place : Place) (node : Node) : WorkingDirectory :=
  if d.nodes.any (·.1 = place) then
    { nodes := d.nodes.map fun n => if n.1 = place then (place, node) else n }
  else { nodes := d.nodes ++ [(place, node)] }

def content (d : WorkingDirectory) (place : Place) : Bytes :=
  match d.node? place with
  | some (.file bs) => bs
  | _ => []

def changes (earlier later : WorkingDirectory) : List (Place × Node) :=
  later.nodes.filter fun n => earlier.node? n.1 ≠ some n.2

/-- Follow the remaining parts of a path. All but the last must lead to directories. -/
def follow (d : WorkingDirectory) : (parts : List String) → (here : Place) → Except OsError Place
  | [], here => .ok here
  | part :: rest, here =>
    match d.node? here with
    | none => .error .notFound
    | some (.file _) => .error .notADirectory
    | some .directory =>
      if part = "" ∨ part = "." then d.follow rest here
      else if part = ".." then d.follow rest here.above
      else if Path.maxName < part.utf8ByteSize then .error .nameTooLong
      else d.follow rest (here ++ [part])

/-- The place a path leads to; its last part need not exist. -/
def resolve (d : WorkingDirectory) (path : String) : Except OsError Place :=
  if path.isEmpty then .error .notFound
  else if Path.maxPath < path.utf8ByteSize then .error .nameTooLong
  else
    d.follow ((Path.parts path).reverse.dropWhile (· = "")).reverse
      (if Path.isAbsolute path then Place.root else [])

/-- What a path leads to. Only a directory may have a slash behind its name. -/
def find (d : WorkingDirectory) (path : String) : Except OsError (Place × Node) := do
  let place ← d.resolve path
  match d.node? place with
  | none => throw .notFound
  | some (.file bs) =>
    if Path.asksDirectory path then throw .notADirectory else return (place, .file bs)
  | some .directory => return (place, .directory)

def isDirectory (d : WorkingDirectory) (path : String) : Bool :=
  match d.find path with
  | .ok (_, .directory) => true
  | _ => false

def checked {α : Type} (path : String) (r : Except OsError α) : Except Fault α :=
  if path.toList.contains (Char.ofNat 0) then .error .zeroInPath else r.mapError .os

def openFile (d : WorkingDirectory) (path : String) : Except Fault (Place × Bytes) :=
  checked path do
    match ← d.find path with
    | (place, .file bs) => return (place, bs)
    | (_, .directory) => throw .isADirectory

def createFile (d : WorkingDirectory) (path : String) : Except Fault (Place × WorkingDirectory) :=
  checked path do
    let place ← d.resolve path
    if Path.asksDirectory path ∨ d.node? place = some .directory then throw .isADirectory
    return (place, d.put place (.file []))

def makeDirectory (d : WorkingDirectory) (path : String) : Except OsError WorkingDirectory := do
  let place ← d.resolve path
  match d.node? place with
  | some _ => throw .alreadyExists
  | none => return d.put place .directory

def ensureDirectory (d : WorkingDirectory) (path : String) : Except OsError WorkingDirectory :=
  match d.makeDirectory path with
  | .ok d => .ok d
  | .error e => if d.isDirectory path then .ok d else .error e

/-- Make the directory of some components, given in reverse, and those above it. -/
def makeAbove (d : WorkingDirectory) (isAbsolute : Bool) : (reversed : List String) →
    Except OsError WorkingDirectory
  | [] => .ok d
  | last :: rest =>
    let path := Path.ofComponents isAbsolute (last :: rest).reverse
    match d.ensureDirectory path with
    | .ok d => .ok d
    | .error .notFound =>
      match d.makeAbove isAbsolute rest with
      | .ok d => d.ensureDirectory path
      | .error e => .error e
    | .error e => .error e

def makeDirectories (d : WorkingDirectory) (path : String) : Except Fault WorkingDirectory :=
  checked path <|
    if path.isEmpty then .ok d
    else
      match d.ensureDirectory path with
      | .ok d => .ok d
      | .error .notFound =>
        match d.makeAbove (Path.isAbsolute path) (Path.components path).reverse.tail with
        | .ok d => d.ensureDirectory path
        | .error e => .error e
      | .error e => .error e

end WorkingDirectory

end SectionArchive
