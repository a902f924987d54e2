import SectionArchive.CommandLine.Diagnostic
import SectionArchive.Files.FileContainer
/-!
What a command works on: the files, and what was printed so far. A command that fails keeps what it
has done up to there.
-/

namespace SectionArchive.CommandLine

structure Console where
  files : WorkingDirectory
  stdout : String := ""
  stderr : String := ""

abbrev Command := EStateM Failure Console

namespace Command

def say (line : String) : Command Unit :=
  modify fun c => { c with stdout := c.stdout ++ line ++ "\n" }

def warn (line : String) : Command Unit :=
  modify fun c => { c with stderr := c.stderr ++ line ++ "\n" }

def ofFiles {ε α : Type} (cause : ε → Failure) (look : WorkingDirectory → Except ε α) :
    Command α := do
  match look (← get).files with
  | .ok a => return a
  | .error e => throw (cause e)

def onFiles {ε α : Type} (cause : ε → Failure)
    (act : WorkingDirectory → Except ε (α × WorkingDirectory)) : Command α := do
  match act (← get).files with
  | .ok (a, files) =>
    modify fun c => { c with files }
    return a
  | .error e => throw (cause e)

def readFile (path : String) : Command Bytes :=
  ofFiles .system fun d => (d.openFile path).map Prod.snd

def openContainer (path : String) : Command FileContainer :=
  ofFiles .engine fun d => FileContainer.openPath d path defaultMaxSections

def attempt {α : Type}
    (act : WorkingDirectory → FileContainer → Except Error α × WorkingDirectory × FileContainer)
    (f : FileContainer) : Command (Except Error α × FileContainer) := do
  let (r, files, f) := act (← get).files f
  modify fun c => { c with files }
  return (r, f)

def operate {α : Type}
    (act : WorkingDirectory → FileContainer → Except Error α × WorkingDirectory × FileContainer)
    (f : FileContainer) : Command (α × FileContainer) := do
  match ← attempt act f with
  | (.ok a, f) => return (a, f)
  | (.error e, _) => throw (.engine e)

end Command

end SectionArchive.CommandLine
