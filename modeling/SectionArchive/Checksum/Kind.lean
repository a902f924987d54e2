import SectionArchive.Checksum.Crc32
import SectionArchive.Checksum.Weak
import SectionArchive.Text.LetterCase
/-!
The checksum kinds a section can carry, and checksums computed while the bytes go by. Pushing
chunks one after another is pushing their concatenation, so a running checksum and the checksum of
the whole agree however the bytes are cut.
-/

namespace SectionArchive.Checksum

inductive Kind
  /-- Not protected; everything passes. -/
  | none
  /-- Two wrapping 16-bit sums. -/
  | weak
  | crc32
deriving DecidableEq, Repr, Inhabited

def Kind.name : Kind → String
  | .none => "none"
  | .weak => "weak"
  | .crc32 => "crc32"

def Kind.ofName? (s : String) : Option Kind :=
  [Kind.none, .weak, .crc32].find? fun k => LetterCase.matchesName s k.name

inductive Running
  | none
  | weak (sums : Weak.Sums)
  | crc32 (register : UInt32)
deriving DecidableEq, Repr

def Kind.start : Kind → Running
  | .none => .none
  | .weak => .weak {}
  | .crc32 => .crc32 Crc32.start

namespace Running

def push : Running → Bytes → Running
  | .none, _ => .none
  | .weak sums, bs => .weak (bs.foldl Weak.Sums.update sums)
  | .crc32 r, bs => .crc32 (bs.foldl Crc32.update r)

def finish : Running → UInt32
  | .none => 0
  | .weak sums => sums.finish
  | .crc32 r => Crc32.finish r

@[simp] theorem push_nil (s : Running) : s.push [] = s := by cases s <;> rfl

theorem push_append (s : Running) (a b : Bytes) : s.push (a ++ b) = (s.push a).push b := by
  cases s <;> simp [push]

theorem foldl_push (s : Running) (chunks : List Bytes) :
    chunks.foldl push s = s.push chunks.flatten := by
  induction chunks generalizing s with
  | nil => simp
  | cons c cs ih => simp [ih, push_append]

end Running

/-- The checksum of `bs`; zero when there is none. -/
def checksum (kind : Kind) (bs : Bytes) : UInt32 := (kind.start.push bs).finish

def verify (kind : Kind) (stored : UInt32) (bs : Bytes) : Bool :=
  kind == .none || checksum kind bs == stored

end SectionArchive.Checksum
