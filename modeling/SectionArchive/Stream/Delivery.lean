import SectionArchive.Deflate.Zlib
import SectionArchive.Format.Flags
import SectionArchive.Stream.Sink
import SectionArchive.Stream.Source
import SectionArchive.Xz.Stream
/-!
What an unpacker hands on. A reader asks it for output a block at a time and passes each block on
at once; a call that fails hands on nothing. So a broken stream delivers what the calls before the
failing one made, which depends on where the slices of the input are cut; a stream that merely
ends early delivers all that decodes, and an intact stream delivers everything.
-/

namespace SectionArchive

/-- The blocks handed on, and what happened after them if it was not the end. -/
structure Delivery where
  pieces : List Bytes
  failure : Option StreamFault

namespace Delivery

def blockSize : Nat := 8192

def ofBytes (bs : Bytes) (failure : Option StreamFault) : Delivery :=
  { pieces := bs.pieces blockSize, failure }

def output (d : Delivery) : Bytes := d.pieces.flatten

def stored (s : Source) : Delivery := ofBytes s.data (s.failure.map .io)

def windowSize : Nat := 32768

/-- How much output there was when the call began in which a zlib stream got from `earlier` bytes
to `total`. The window is filled up to its end and then handed on in blocks; a call goes on to the
next window only if its block was not full yet. -/
def zlibCallStart (earlier total : Nat) : Nat :=
  let start := max earlier (windowSize * (total / windowSize))
  if start - earlier < blockSize then earlier else start

/-- What a zlib stream delivers. Bytes behind it are left alone, and the source is asked for more
only if the last call made output and used up the data. -/
def zlib (s : Source) : Delivery :=
  let d := Zlib.decode s.data
  let total := d.output.length
  let start := zlibCallStart (Zlib.decode (s.earlier d.used)).output.length total
  match d.stop, s.failure with
  | none, none => ofBytes d.output none
  | none, some f =>
    if d.used = s.data.length ∧ start < total then
      ofBytes (d.output.take (start + blockSize)) (some (.io f))
    else ofBytes d.output none
  | some .starved, none => ofBytes d.output (some .zlibIncomplete)
  | some .starved, some f => ofBytes (d.output.take (start + blockSize)) (some (.io f))
  | some _, _ => ofBytes (d.output.take start) (some .zlibCorrupt)

def xzCallStart (earlier total : Nat) : Nat :=
  earlier + blockSize * ((total - earlier) / blockSize)

def xzFault : Stop → StreamFault
  | .starved => .xzIncomplete
  | .unrecognized => .xzUnrecognized
  | .unsupported => .xzUnsupported
  | .corrupt => .xzCorrupt

/-- What an xz stream delivers. Bytes behind it are an error, and the source is always asked
whether there are any. -/
def xz (s : Source) : Delivery :=
  let d := Xz.decode s.data
  match d.stop with
  | none =>
    if d.used < s.data.length then ofBytes d.output (some .xzTrailing)
    else ofBytes d.output (s.failure.map .io)
  | some .starved => ofBytes d.output (some ((s.failure.map .io).getD .xzIncomplete))
  | some stop =>
    let earlier := (Xz.decode (s.earlier d.used)).output.length
    ofBytes (d.output.take (xzCallStart earlier d.output.length)) (some (xzFault stop))

def unpack : Option Method → Source → Delivery
  | none => stored
  | some .zlib => zlib
  | some .xz => xz

end Delivery

end SectionArchive
