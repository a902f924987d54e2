import Mathlib
import SectionArchive.Proofs.Saving
/-!
A ledger of payloads. It keeps, for every section of a container, what the section was created with,
its payload as it is now and the payload as it was last saved; it knows nothing of headers, offsets,
marks or bytes on storage. The runs of a container are told beside it, one entry in the ledger for
each operation.
-/

namespace SectionArchive

/-! ### The ledger -/

structure Item where
  ty : UInt8
  /-- The flags it was created with. -/
  flags : UInt8
  threshold : Option UInt32
  /-- The payload as it is now. -/
  current : Bytes := []
  /-- The payload as it was last saved, if it was. -/
  saved : Option Bytes := none
  /-- The payload's cursor while it is in memory. -/
  cursor : Option Nat := some 0

namespace Item

def fetched (s : Item) : Item := { s with cursor := some (s.cursor.getD 0) }

/-- The payload in memory is edited; without one there is nothing to edit. -/
def edited (s : Item) (e : Edit) : Item :=
  match s.cursor with
  | none => s
  | some n =>
    let p := e.apply { bytes := s.current, position := n }
    { s with current := p.bytes, cursor := some p.position }

def reverted (s : Item) : Item :=
  { s with current := s.saved.getD [], cursor := if s.saved.isSome then none else some 0 }

def settled (s : Item) : Item := { s.fetched with saved := some s.current }

def piece (s : Item) : Section.Piece where
  ty := s.ty
  flags := Flags.effective s.flags s.threshold s.current.length
  raw := s.current

/-- The section as another opening finds it: saved, not loaded, its threshold forgotten. -/
def reopened (s : Item) : Item where
  ty := s.ty
  flags := s.piece.flags
  threshold := none
  current := s.current
  saved := some s.current
  cursor := none

def ofStored (h : SectionHeader) (raw : Bytes) : Item where
  ty := h.ty
  flags := h.flags
  threshold := none
  current := raw
  saved := some raw
  cursor := none

end Item

/-- The payloads of a container, and how many there may be. -/
structure Ledger where
  items : List Item := []
  maxSections : UInt32

namespace Ledger

def update (m : Ledger) (i : Nat) (f : Item → Item) : Ledger :=
  match m.items[i]? with
  | none => m
  | some s => { m with items := m.items.set i (f s) }

/-- Why the container cannot be saved, if so: the first section that is too long. -/
def tooLong? (m : Ledger) : Option Error :=
  (m.items.map Item.piece).zipIdx.findSome? fun p => Container.tooLong? p.2 p.1

def step (m : Ledger) : Op → Ledger
  | .add o =>
    if m.maxSections.toNat ≤ m.items.length then m
    else { m with
      items := m.items ++ [{ ty := o.ty, flags := o.flags, threshold := o.threshold }] }
  | .write i data => m.update i fun s => { s with current := data, cursor := some 0 }
  | .edit i e => m.update i fun s => s.edited e
  | .load i | .read i => m.update i Item.fetched
  | .unload i => m.update i Item.reverted
  | .remove i => { m with items := m.items.eraseIdx i }
  | .save =>
    { m with items := m.items.map (if m.tooLong?.isSome then Item.fetched else Item.settled) }

def reopen (m : Ledger) (maxSections : UInt32) : Ledger :=
  { items := m.items.map Item.reopened, maxSections }

def current (m : Ledger) (i : Nat) : Except Error Bytes :=
  match m.items[i]? with
  | none => .error (.unknownSection i)
  | some s => .ok s.current

/-- Whether an operation succeeds, and how it fails if not. -/
def verdict (m : Ledger) : Op → Except Error Unit
  | .add _ =>
    if m.maxSections.toNat ≤ m.items.length then
      .error (.capacity (m.items.length + 1) m.maxSections)
    else .ok ()
  | .edit i _ =>
    match m.items[i]? with
    | none => .error (.unknownSection i)
    | some s => if s.cursor.isSome then .ok () else .error (.sectionNotLoaded i)
  | .write i _ | .load i | .read i | .unload i | .remove i => (m.current i).map fun _ => ()
  | .save =>
    match m.tooLong? with
    | some e => .error e
    | none => .ok ()

end Ledger

/-! ### Runs of a container -/

namespace Container

/-- Close the container and open what it leaves on storage. -/
def reopen (maxSections : UInt32) : Action Unit := fun c =>
  match close c with
  | .error e c => .error e c
  | .ok () c =>
    match ofStorage maxSections c.storage with
    | .error e storage => .error e { c with storage }
    | .ok c _ => .ok () c

structure InMemory (s : Storage) : Prop where
  free : s.FaultFree
  length : s.content.length < UInt64.size

/-- A run of a container over a storage in memory, and the ledger that is kept beside it. It starts
with a new container of a known version, or with one that was opened and whose sections all lie
inside the storage and can be read. Operations may fail and the run goes on; only closing and
opening again has to succeed for there to be a container behind it. -/
inductive Runs : Container → Ledger → Prop
  | create {s : Storage} {o : CreateOptions} (hs : InMemory s)
      (hversion : o.version = 1 ∨ o.version = 2) :
      Runs (create s o) { maxSections := o.maxSections }
  | opened {maxSections : UInt32} {s s' : Storage} {c : Container} {payloads : List Bytes}
      (hs : InMemory s) (hopen : ofStorage maxSections s = .ok c s')
      (hplace : ∀ h ∈ c.directory.headers, h.pointer.toNat + h.csize.toNat ≤ s.content.length)
      (hcount : payloads.length = c.directory.size)
      (hread : ∀ i raw, payloads[i]? = some raw → ∃ c', read i c = .ok raw c') :
      Runs c { items := List.zipWith Item.ofStored c.directory.headers payloads, maxSections }
  | perform {c : Container} {m : Ledger} (op : Op) (h : Runs c m)
      (hs : InMemory (after (perform op c)).storage) : Runs (after (perform op c)) (m.step op)
  | copy {c : Container} {m : Ledger} {σ : Type} (i : Nat) (w : Writer σ) (sink : σ)
      (h : Runs c m) :
      Runs (after (copy i w (c, sink))).1 m
  | reopen {c c' : Container} {m : Ledger} {maxSections : UInt32} (h : Runs c m)
      (hcount : m.items.length ≤ maxSections.toNat) (hreopen : reopen maxSections c = .ok () c')
      (hs : InMemory c'.storage) : Runs c' (m.reopen maxSections)

/-- A container answers as the ledger has it: sections are read and copied as they are now, and
operations succeed or fail alike. Opening what closing leaves on storage succeeds, unless saving
would not or the storage would become too long. -/
structure Describes (m : Ledger) (c : Container) : Prop where
  read : ∀ i, answer (read i c) = m.current i
  copy : ∀ i (sink : Sink), sink.Accepting →
    answer (copy i Sink.write (c, sink)) = (m.current i).map List.length ∧
      (after (copy i Sink.write (c, sink))).2.bytes = sink.bytes ++ (m.current i).toOption.getD []
  perform : ∀ op, answer (perform op c) = m.verdict op
  reopen : ∀ maxSections : UInt32, m.items.length ≤ maxSections.toNat → m.tooLong? = none →
    InMemory (after (close c)).storage → answer (reopen maxSections c) = .ok ()

end Container

end SectionArchive
