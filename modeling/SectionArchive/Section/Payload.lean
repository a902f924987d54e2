import SectionArchive.Bytes
import SectionArchive.Fault
/-!
The payload of a loaded section, edited as a small file: bytes, one cursor for reading and
writing, and a mark that is set by the first write or replacement. Reading and seeking never
change the bytes; a cursor beyond the end reads as empty and is reached by zeros when written at.
-/

namespace SectionArchive

structure Payload where
  bytes : Bytes := []
  /-- Where the next read or write starts. -/
  position : Nat := 0
  /-- Whether anything was written since the payload was loaded or saved. -/
  dirty : Bool := false
deriving DecidableEq, Repr

inductive SeekFrom
  | start (offset : Nat)
  | stop (offset : Int)
  | current (offset : Int)

namespace Payload

def ofLoaded (bs : Bytes) : Payload := { bytes := bs }

/-- Write at the cursor. The mark is set and a gap is filled even for no bytes. -/
def write (p : Payload) (data : Bytes) : Payload where
  bytes := p.bytes.overwrite p.position data
  position := p.position + data.length
  dirty := true

def writeAll (p : Payload) (data : Bytes) : Payload :=
  if data.isEmpty then p else p.write data

def replace (_ : Payload) (data : Bytes) : Payload := { bytes := data, dirty := true }

def read (p : Payload) (n : Nat) : Bytes × Payload :=
  let got := (p.bytes.drop p.position).take n
  (got, { p with position := p.position + got.length })

/-- Exactly `n` bytes from the cursor on; what was there is consumed even if it is too little. -/
def readExact (p : Payload) (n : Nat) : Except Fault Bytes × Payload :=
  let (got, p) := p.read n
  (if got.length = n then .ok got else .error .shortRead, p)

def readToEnd (p : Payload) : Bytes × Payload := p.read p.bytes.length

def readText (p : Payload) : Except Fault String × Payload :=
  let (got, p) := p.readToEnd
  (match got.toString? with
    | some s => .ok s
    | none => .error .invalidText, p)

def target (p : Payload) : SeekFrom → Int
  | .start offset => offset
  | .stop offset => p.bytes.length + offset
  | .current offset => p.position + offset

def seek (p : Payload) (whence : SeekFrom) : Except Fault Nat × Payload :=
  let t := p.target whence
  if 0 ≤ t ∧ t < UInt64.size then (.ok t.toNat, { p with position := t.toNat })
  else (.error .seekOutOfRange, p)

def markClean (p : Payload) : Payload := { p with dirty := false }

end Payload

end SectionArchive
