import SectionArchive.Bytes
/-!
The result of running a decoder over some input: what it produced, how much of the input it looked
at, and why it stopped if that was not the end of the stream.
-/

namespace SectionArchive

inductive Stop
  /-- The input ends too early. -/
  | starved
  /-- The input does not start as such a stream. -/
  | unrecognized
  /-- The stream asks for what is reserved, unknown or not allowed. -/
  | unsupported
  /-- The stream contradicts itself. -/
  | corrupt
deriving DecidableEq, Repr

structure Decoding where
  output : Bytes
  /-- How many bytes of the input were looked at. -/
  used : Nat
  /-- Why the end of the stream was not reached, if it was not. -/
  stop : Option Stop
deriving Repr

end SectionArchive
