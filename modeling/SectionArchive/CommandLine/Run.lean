import SectionArchive.CommandLine.Console
import SectionArchive.CommandLine.Report
/-!
The commands. Running the command line is a function of its arguments and the files to an exit
status, two printed texts and the files afterwards.
-/

namespace SectionArchive.CommandLine

open Command

/-! ### Packing -/

def checksumNamed (name : String) : Command Checksum.Kind := do
  match Checksum.Kind.ofName? name with
  | some kind => return kind
  | none =>
    warn s!"Unknown checksum '{name}', defaulting to crc32"
    return .crc32

def packingNamed (name : String) : Command (Option Method) := do
  if LetterCase.matchesAscii name "none" then return none
  match Method.ofName? name with
  | some m => return some m
  | none =>
    warn s!"Unknown codec '{name}', defaulting to zlib"
    return some .zlib

def packFiles (o : SectionOptions) : List String → FileContainer → Command FileContainer
  | [], f => return f
  | path :: rest, f => do
    let data ← readFile path
    let (index, f) ← operate (FileContainer.run (Container.add o)) f
    let ((), f) ← operate (FileContainer.run (Container.write index data)) f
    say s!"  packed  {path} -> section {index}"
    packFiles o rest f

def Packing.perform (r : Packing) : Command Unit := do
  let checksum ← checksumNamed r.checksum
  let packing ← packingNamed r.codec
  let f ← onFiles .engine fun d =>
    FileContainer.createPath d r.output { ty := r.containerType, version := r.version }
  let f ← packFiles { ty := r.sectionType, packing, checksum, threshold := r.threshold } r.inputs f
  let ((), _) ← operate (FileContainer.run Container.close) f
  say s!"Created: {r.output}"

/-! ### Extraction -/

def sectionPath (outputDir : String) (index : Nat) : String :=
  Path.join outputDir s!"section_{index}.bin"

def extractAll (outputDir : String) : List Nat → FileContainer → Command Unit
  | [], _ => return ()
  | index :: rest, f => do
    let path := sectionPath outputDir index
    let target ← onFiles .system fun d => d.createFile path
    let (n, f) ← operate (FileContainer.copyInto index target) f
    say s!"  extracted section {index} ({n} B) -> {path}"
    extractAll outputDir rest f

def Extraction.targets (r : Extraction) (c : Container) : List Nat :=
  match r.index with
  | some index => [index.toNat]
  | none => List.range c.directory.size

def Extraction.perform (r : Extraction) : Command Unit := do
  let f ← openContainer r.input
  onFiles .system fun d => (d.makeDirectories r.outputDir).map ((), ·)
  extractAll r.outputDir (r.targets f.container) f

/-! ### Looking -/

def listContainer (input : String) : Command Unit := do
  let f ← openContainer input
  say s!"Container: {input}"
  (Report.table f.container.directory.headers).forM say

def showContainer (input : String) (asJson : Bool) : Command Unit := do
  let f ← openContainer input
  if asJson then say ((Report.document f.container).render "")
  else (Report.summary input f.container).forM say

/-! ### Verifying -/

/-- Load each listed section and drop it again; the result is how many are not intact. -/
def verifyAll : List Nat → FileContainer → Command Nat
  | [], _ => return 0
  | index :: rest, f => do
    let (r, f) ← attempt (FileContainer.run (Container.load index)) f
    let failed ← match r with
      | .ok p =>
        say s!"  ok    section {index} ({p.bytes.length} B)"
        pure 0
      | .error e =>
        say (s!"  FAIL  section {index}: " ++ e.message ++ " (code 0x" ++
          Digits.hex e.code.toNat ++ ")")
        pure 1
    let ((), f) ← operate (FileContainer.run (Container.unload index)) f
    return failed + (← verifyAll rest f)

def verifyContainer (input : String) : Command Unit := do
  let f ← openContainer input
  let total := f.container.directory.size
  let failed ← verifyAll (List.range total) f
  if failed ≠ 0 then throw (.unverified failed total)
  say s!"Verified: {input}"

/-! ### Running -/

def Request.perform : Request → Command Unit
  | .pack r => r.perform
  | .extract r => r.perform
  | .list input => listContainer input
  | .info input asJson => showContainer input asJson
  | .verify input => verifyContainer input

structure Outcome where
  /-- Zero for success, 1 for a command that failed, 2 for arguments that make no request. -/
  exitCode : Nat
  stdout : String
  stderr : String
  files : WorkingDirectory

def usage : String :=
  "Usage:\n" ++
  "  pack -o <OUTPUT> [-t <BYTE>] [-s <BYTE>] [-c <CODEC>] [-k <CHECKSUM>]\n" ++
  "       [--threshold <N>] [--version <N>] -i <INPUT>...\n" ++
  "  extract <INPUT> [-C <DIR>] [-i <INDEX>]\n" ++
  "  list <INPUT>\n" ++
  "  info <INPUT> [--json]\n" ++
  "  verify <INPUT>\n"

def run (words : List String) (files : WorkingDirectory) : Outcome :=
  match Request.ofWords words with
  | .error .help => { exitCode := 0, stdout := usage, stderr := "", files }
  | .error e =>
    { exitCode := 2, stdout := "", stderr := "error: " ++ e.message ++ "\n\n" ++ usage, files }
  | .ok request =>
    match request.perform { files } with
    | .ok () c => { exitCode := 0, stdout := c.stdout, stderr := c.stderr, files := c.files }
    | .error e c =>
      { exitCode := 1, stdout := c.stdout,
        stderr := c.stderr ++ "Error: " ++ e.structural ++ "\n", files := c.files }

end SectionArchive.CommandLine
