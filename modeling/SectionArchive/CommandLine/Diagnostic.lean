import SectionArchive.CommandLine.Request
import SectionArchive.Error
import SectionArchive.Text.Quoted
/-!
What a failed command says. An error is shown by its structure: its name, and behind it the values
it carries, so that no detail is lost in wording.
-/

namespace SectionArchive.CommandLine

inductive Failure
  /-- The container engine refused. -/
  | engine (error : Error)
  /-- A file or directory other than the container could not be used. -/
  | system (fault : Fault)
  /-- Some sections are not intact. -/
  | unverified (failed total : Nat)
deriving DecidableEq, Repr

namespace Structural

def tuple (name : String) (values : List String) : String :=
  name ++ "(" ++ ", ".intercalate values ++ ")"

def record (name : String) (fields : List (String × String)) : String :=
  name ++ " \x7b " ++ ", ".intercalate (fields.map fun f => f.1 ++ ": " ++ f.2) ++ " \x7d"

def ofFault (f : Fault) : String :=
  let kind := ("kind", f.kind)
  match f with
  | .os e =>
    record "Os" [("code", toString e.code), kind, ("message", Quoted.quote e.text)]
  | .shortRead | .seekOutOfRange | .invalidText | .zeroInPath | .sinkStalled =>
    record "Error" [kind, ("message", Quoted.quote f.text)]
  | .truncatedPayload .. | .oversized | .payloadTooLong .. | .sinkRefused | .sourceFailed
  | .refused _ =>
    record "Custom" [kind, ("error", Quoted.quote f.text)]

def ofSite : ChecksumSite → String
  | .mainHeader => "MainHeader"
  | .payload index => tuple "Section" [toString index]

def ofError : Error → String
  | .invalidPath path => tuple "InvalidPath" [Quoted.quote path]
  | .fileOpen path source =>
    record "FileOpen" [("path", Quoted.quote path), ("source", ofFault source)]
  | .fileCreate path source =>
    record "FileCreate" [("path", Quoted.quote path), ("source", ofFault source)]
  | .unknownSection index => record "UnknownSection" [("index", toString index)]
  | .sectionIo fault => tuple "SectionIo" [ofFault fault]
  | .checksum site expected actual =>
    record "Checksum" [("site", ofSite site), ("expected", toString expected),
      ("actual", toString actual)]
  | .io fault => tuple "Io" [ofFault fault]
  | .sectionBounds index start stop fileSize =>
    record "SectionBounds" [("index", toString index), ("start", toString start),
      ("end", toString stop), ("file_size", toString fileSize)]
  | .badFlags index flags =>
    record "BadFlags" [("index", toString index), ("flags", toString flags)]
  | .badVersion version => tuple "BadVersion" [toString version]
  | .badSignature signature =>
    tuple "BadSignature" ["[" ++ ", ".intercalate (signature.map toString) ++ "]"]
  | e@(.inflate _) | e@(.inflateSize ..) => tuple "Inflate" [Quoted.quote e.packingDetail]
  | e@(.deflate _) | e@(.deflateTooLong _) => tuple "Deflate" [Quoted.quote e.packingDetail]
  | .sectionNotLoaded index => record "SectionNotLoaded" [("index", toString index)]
  | .capacity requested limit =>
    record "Capacity" [("requested", toString requested), ("limit", toString limit)]

end Structural

def Failure.structural : Failure → String
  | .engine e => Structural.ofError e
  | .system f => Structural.ofFault f
  | .unverified failed total =>
    Quoted.quote s!"{failed} of {total} section(s) failed verification"

def Refusal.message : Refusal → String
  | .help => "help was asked for"
  | .noCommand => "a command is needed"
  | .unknownCommand name => "there is no command " ++ Quoted.quote name
  | .unknownOption word => "there is no option " ++ Quoted.quote word
  | .badOption name => "the option --" ++ name ++ " cannot be used like this"
  | .badArgument word => "the argument " ++ Quoted.quote word ++ " cannot be used here"
  | .incomplete => "an argument is missing"

end SectionArchive.CommandLine
