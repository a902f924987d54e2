import SectionArchive.Bytes
import SectionArchive.Fault
/-!
Where bytes are written to. A writer is asked to take some bytes and answers how many it took, or
fails; writing all of them means asking again for the rest. A sink is a writer that keeps what it
took and follows a policy of its own.
-/

namespace SectionArchive

/-- One request to take bytes, answered by how many were taken. A request that is interrupted is made
again, so the two count as one. -/
abbrev Writer (σ : Type) := Bytes → EStateM Fault σ Nat

/-- Offer the rest again until all bytes are taken. A writer that takes none has stalled. -/
def Writer.writeAll {σ : Type} (w : Writer σ) (data : Bytes) : EStateM Fault σ Unit :=
  if _h : data = [] then pure ()
  else do
    let n ← w data
    if _hn : n = 0 then throw .sinkStalled
    else Writer.writeAll w (data.drop n)
termination_by data.length
decreasing_by
  have := List.length_pos_iff.2 _h
  simp only [List.length_drop]
  omega

def Writer.writePieces {σ : Type} (w : Writer σ) : (pieces : List Bytes) → EStateM Fault σ Unit
  | [] => pure ()
  | p :: rest => do
    w.writeAll p
    writePieces w rest

inductive Reply
  /-- Take at most this many. -/
  | take (n : Nat)
  | refuse
deriving DecidableEq, Repr

structure Sink where
  /-- The reply to an offer, given how often it was asked before, how many bytes it holds and how
  many are offered. -/
  policy : (calls total offered : Nat) → Reply
  calls : Nat := 0
  received : Array UInt8 := #[]

namespace Sink

def unlimited : Sink := { policy := fun _ _ offered => .take offered }

/-- A sink that takes at most `chunk` bytes at once and refuses what would bring it above
`limit`. -/
def bounded (limit chunk : Option Nat) : Sink where
  policy := fun _ total offered =>
    let n := min offered (chunk.getD offered)
    if limit.any (· < total + n) then .refuse else .take n

def write : Writer Sink := fun data s =>
  match s.policy s.calls s.received.size data.length with
  | .refuse => .error .sinkRefused { s with calls := s.calls + 1 }
  | .take n =>
    let taken := data.take n
    .ok taken.length { s with calls := s.calls + 1, received := s.received ++ taken }

def bytes (s : Sink) : Bytes := s.received.toList

end Sink

end SectionArchive
