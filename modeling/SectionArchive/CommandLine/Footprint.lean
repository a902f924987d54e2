import SectionArchive.CommandLine.Run
/-!
Which paths a request reads or writes. Running a request on the part of the file system that is
found under these paths is running it on all of it.
-/

namespace SectionArchive.CommandLine

def Request.named : Request → List String
  | .pack r => r.output :: r.inputs
  | .extract r => [r.input, r.outputDir]
  | .list input | .info input _ | .verify input => [input]

/-- The paths that a request writes without naming them, which depend on the container. -/
def Request.implied (d : WorkingDirectory) : Request → List String
  | .extract r =>
    match FileContainer.openPath d r.input defaultMaxSections with
    | .ok f => (r.targets f.container).map (sectionPath r.outputDir)
    | .error _ => []
  | _ => []

def ancestry (path : String) : List String :=
  let parts := Path.parts path
  (List.range parts.length).map fun n => "/".intercalate (parts.take (n + 1))

end SectionArchive.CommandLine
