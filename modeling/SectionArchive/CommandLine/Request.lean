import SectionArchive.CommandLine.Grammar
import SectionArchive.Text.Numeral
/-!
What can be asked for on the command line, and how it is written. Each command gathers its
arguments in a draft; a draft in which nothing needed is missing makes a request.
-/

namespace SectionArchive.CommandLine

structure Packing where
  output : String
  inputs : List String
  containerType : UInt8 := 0
  sectionType : UInt8 := 0xFF
  codec : String := "zlib"
  checksum : String := "crc32"
  threshold : Option UInt32 := none
  version : UInt32 := 2
deriving DecidableEq, Repr

structure Extraction where
  input : String
  outputDir : String := "."
  index : Option UInt32 := none
deriving DecidableEq, Repr

inductive Request
  | pack (r : Packing)
  | extract (r : Extraction)
  | list (input : String)
  | info (input : String) (asJson : Bool)
  | verify (input : String)
deriving DecidableEq, Repr

/-! ### Values -/

def path? (s : String) : Option String := if s.isEmpty then none else some s

def once {α : Type} (read : String → Option α) (old : Option α) : List String → Option α
  | [v] => if old.isSome then none else read v
  | _ => none

/-- The values of an option that can be given again, at least one each time. -/
def several {α : Type} (read : String → Option α) (old : List α) (values : List String) :
    Option (List α) :=
  if values.isEmpty then none else (values.mapM read).map (old ++ ·)

/-! ### Packing -/

structure PackingDraft where
  output : Option String := none
  inputs : List String := []
  containerType : Option UInt8 := none
  sectionType : Option UInt8 := none
  codec : Option String := none
  checksum : Option String := none
  threshold : Option UInt32 := none
  version : Option UInt32 := none

namespace PackingDraft

def grammar : Grammar PackingDraft where
  options :=
    [{ name := "output", letter := 'o', arity := .one,
       take := fun vs d => (once path? d.output vs).map fun v => { d with output := v } },
     { name := "container-type", letter := 't', arity := .one,
       take := fun vs d =>
        (once Numeral.byte? d.containerType vs).map fun v => { d with containerType := v } },
     { name := "section-type", letter := 's', arity := .one,
       take := fun vs d =>
        (once Numeral.byte? d.sectionType vs).map fun v => { d with sectionType := v } },
     { name := "codec", letter := 'c', arity := .one,
       take := fun vs d => (once some d.codec vs).map fun v => { d with codec := v } },
     { name := "checksum", letter := 'k', arity := .one,
       take := fun vs d => (once some d.checksum vs).map fun v => { d with checksum := v } },
     { name := "threshold", letter := none, arity := .one,
       take := fun vs d =>
        (once Numeral.word? d.threshold vs).map fun v => { d with threshold := v } },
     { name := "version", letter := none, arity := .one,
       take := fun vs d => (once Numeral.word? d.version vs).map fun v => { d with version := v } },
     { name := "input", letter := 'i', arity := .many,
       take := fun vs d => (several path? d.inputs vs).map fun vs => { d with inputs := vs } }]
  positional := fun _ _ => none

def finish (d : PackingDraft) : Option Packing :=
  match d.output, d.inputs with
  | none, _ | _, [] => none
  | some output, inputs =>
    let start : Packing := { output, inputs }
    some { start with
      containerType := d.containerType.getD start.containerType
      sectionType := d.sectionType.getD start.sectionType
      codec := d.codec.getD start.codec
      checksum := d.checksum.getD start.checksum
      threshold := d.threshold
      version := d.version.getD start.version }

end PackingDraft

/-! ### Commands on one container -/

structure ReadingDraft where
  input : Option String := none
  outputDir : Option String := none
  index : Option UInt32 := none
  asJson : Bool := false

namespace ReadingDraft

def positional (word : String) (d : ReadingDraft) : Option ReadingDraft :=
  (once path? d.input [word]).map fun v => { d with input := v }

def plain : Grammar ReadingDraft where
  options := []
  positional

def extraction : Grammar ReadingDraft where
  options :=
    [{ name := "output-dir", letter := 'C', arity := .one,
       take := fun vs d => (once path? d.outputDir vs).map fun v => { d with outputDir := v } },
     { name := "index", letter := 'i', arity := .one,
       take := fun vs d => (once Numeral.word? d.index vs).map fun v => { d with index := v } }]
  positional

def info : Grammar ReadingDraft where
  options :=
    [{ name := "json", letter := none, arity := .none,
       take := fun vs d =>
        if vs.isEmpty ∧ !d.asJson then some { d with asJson := true } else none }]
  positional

def finishExtraction (d : ReadingDraft) : Option Extraction :=
  d.input.map fun input =>
    let start : Extraction := { input }
    { start with outputDir := d.outputDir.getD start.outputDir, index := d.index }

end ReadingDraft

/-! ### All commands -/

def Grammar.request {σ α : Type} (g : Grammar σ) (start : σ) (finish : σ → Option α)
    (words : List String) : Except Refusal α :=
  match g.read start words with
  | .error e => .error e
  | .ok s =>
    match finish s with
    | some r => .ok r
    | none => .error .incomplete

def commandNames : List String := ["pack", "extract", "list", "info", "verify", "help"]

def Request.ofWords : List String → Except Refusal Request
  | [] => .error .noCommand
  | "pack" :: words => (PackingDraft.grammar.request {} PackingDraft.finish words).map .pack
  | "extract" :: words =>
    (ReadingDraft.extraction.request {} ReadingDraft.finishExtraction words).map .extract
  | "list" :: words => (ReadingDraft.plain.request {} ReadingDraft.input words).map .list
  | "info" :: words =>
    ReadingDraft.info.request {} (fun d => d.input.map fun i => .info i d.asJson) words
  | "verify" :: words => (ReadingDraft.plain.request {} ReadingDraft.input words).map .verify
  | ["help"] => .error .help
  | ["help", name] =>
    .error (if name ∈ commandNames then .help else .unknownCommand name)
  | word :: _ =>
    .error (if (Written.ofWord? word).any Written.isHelp then .help else .unknownCommand word)

end SectionArchive.CommandLine
