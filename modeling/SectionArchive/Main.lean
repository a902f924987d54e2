import SectionArchive.CommandLine.Footprint
/-!
The program: it looks at the files under the paths that a request touches, runs the request on
them, writes back what changed, and prints.
-/

namespace SectionArchive.CommandLine

def probe (path : String) : IO (Option Node) := do
  try
    let bs ← IO.FS.readBinFile path
    return some (.file bs.toList)
  catch e =>
    match e with
    | .inappropriateType .. => return some .directory
    | _ => return none

def observe (d : WorkingDirectory) (paths : List String) : IO WorkingDirectory := do
  let mut d := d
  for path in paths.flatMap ancestry do
    match d.resolve path with
    | .error _ => pure ()
    | .ok place =>
      if (d.node? place).isNone then
        match ← probe path with
        | some node => d := d.put place node
        | none => pure ()
  return d

def store (place : Place) : Node → IO Unit
  | .file bs => IO.FS.writeBinFile place.path ⟨bs.toArray⟩
  | .directory => IO.FS.createDir place.path

end SectionArchive.CommandLine

open SectionArchive CommandLine

def main (words : List String) : IO UInt32 := do
  let mut d : WorkingDirectory := {}
  if let .ok request := Request.ofWords words then
    d ← observe d request.named
    d ← observe d (request.implied d)
  let o := run words d
  for (place, node) in WorkingDirectory.changes d o.files do
    store place node
  IO.print o.stdout
  IO.eprint o.stderr
  return UInt32.ofNat o.exitCode
