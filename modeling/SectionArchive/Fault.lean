/-!
Why reading, writing or placing bytes fails. A `Fault` is a cause; its kind and its wording are
functions of the cause.
-/

namespace SectionArchive

/-- What a storage can be asked to do, and refuse. -/
inductive StorageOp
  | read
  | write
  | flush
  | seek
  /-- To have the cursor sent to a position behind the end; asked besides `seek`. -/
  | reach (position : Nat)
  | setLength
deriving DecidableEq, Repr

def StorageOp.name : StorageOp → String
  | .read => "read"
  | .write => "write"
  | .flush => "flush"
  | .seek | .reach _ => "seek"
  | .setLength => "set_len"

/-- What the operating system answers about a path or an open file. -/
inductive OsError
  | notFound
  | badDescriptor
  | alreadyExists
  | notADirectory
  | isADirectory
  | invalidArgument
  | nameTooLong
deriving DecidableEq, Repr

namespace OsError

def code : OsError → Nat
  | .notFound => 2
  | .badDescriptor => 9
  | .alreadyExists => 17
  | .notADirectory => 20
  | .isADirectory => 21
  | .invalidArgument => 22
  | .nameTooLong => 36

def kind : OsError → String
  | .notFound => "NotFound"
  | .badDescriptor => "Uncategorized"
  | .alreadyExists => "AlreadyExists"
  | .notADirectory => "NotADirectory"
  | .isADirectory => "IsADirectory"
  | .invalidArgument => "InvalidInput"
  | .nameTooLong => "InvalidFilename"

def text : OsError → String
  | .notFound => "No such file or directory"
  | .badDescriptor => "Bad file descriptor"
  | .alreadyExists => "File exists"
  | .notADirectory => "Not a directory"
  | .isADirectory => "Is a directory"
  | .invalidArgument => "Invalid argument"
  | .nameTooLong => "File name too long"

end OsError

inductive Fault
  /-- The input ended inside a field. -/
  | shortRead
  /-- A payload of `packed` bytes of which only `present` are there. -/
  | truncatedPayload (present packed : Nat)
  /-- A cursor was sent before the start or past the largest position. -/
  | seekOutOfRange
  /-- Bytes that are no UTF-8 text were read as text. -/
  | invalidText
  /-- More output than the header declares. -/
  | oversized
  /-- A payload too long for the size field. -/
  | payloadTooLong (index length : Nat)
  /-- A path with a zero character. -/
  | zeroInPath
  /-- A sink that takes no more bytes, without saying why. -/
  | sinkStalled
  | sinkRefused
  /-- A source that fails where its data ends. -/
  | sourceFailed
  | refused (op : StorageOp)
  | os (error : OsError)
deriving DecidableEq, Repr

namespace Fault

def kind : Fault → String
  | .shortRead | .truncatedPayload .. => "UnexpectedEof"
  | .seekOutOfRange | .payloadTooLong .. | .zeroInPath => "InvalidInput"
  | .invalidText | .oversized => "InvalidData"
  | .sinkStalled => "WriteZero"
  | .sinkRefused | .sourceFailed | .refused _ => "Other"
  | .os e => e.kind

/-- The wording of a fault, without the system's error number. -/
def text : Fault → String
  | .shortRead => "failed to fill whole buffer"
  | .truncatedPayload present packed =>
    s!"section payload truncated: {present} of {packed} bytes"
  | .seekOutOfRange => "invalid seek to a negative or overflowing position"
  | .invalidText => "stream did not contain valid UTF-8"
  | .oversized => "decompressed output exceeds declared size"
  | .payloadTooLong index length =>
    s!"section {index} payload is {length} bytes, limit is 4294967295"
  | .zeroInPath => "file name contained an unexpected NUL byte"
  | .sinkStalled => "failed to write whole buffer"
  | .sinkRefused => "sink fault"
  | .sourceFailed => "source fault"
  | .refused op => op.name ++ " fault"
  | .os e => e.text

def message : Fault → String
  | .os e => e.text ++ " (os error " ++ toString e.code ++ ")"
  | f => f.text

end Fault

inductive StreamFault
  /-- The bytes around the stream failed. -/
  | io (fault : Fault)
  | zlibIncomplete
  /-- Anything invalid in a zlib stream. -/
  | zlibCorrupt
  | xzIncomplete
  | xzUnrecognized
  /-- Reserved bits, unknown filters or filter settings that are not allowed. -/
  | xzUnsupported
  /-- Any other corruption of an xz stream. -/
  | xzCorrupt
  /-- Bytes behind the end of an xz stream. -/
  | xzTrailing
deriving DecidableEq, Repr

def StreamFault.message : StreamFault → String
  | .io f => f.message
  | .zlibIncomplete => "incomplete deflate stream"
  | .zlibCorrupt => "corrupt deflate stream"
  | .xzIncomplete => "premature eof"
  | .xzUnrecognized => "stream/file format not recognized"
  | .xzUnsupported => "invalid options"
  | .xzCorrupt => "lzma data error"
  | .xzTrailing => "corrupt xz stream"

end SectionArchive
