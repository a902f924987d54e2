import Mathlib
import SectionArchive.Proofs.Evolution
/-!
What operations leave alone. Short of saving, an operation exchanges one payload, appends one entry
or takes one out, or it fails; that is all it can come to, whatever the storage refuses. So the bytes
on storage stay, every other section stays as it is, and a failure leaves the container as it was but
for the cursor of the storage. Closing what is not modified does nothing at all.
-/

namespace SectionArchive

namespace Op

def section? : Op → Option Nat
  | .write i _ | .edit i _ | .load i | .read i | .unload i | .remove i => some i
  | .add _ | .save => none

def keepsPlaces : Op → Bool
  | .add _ | .remove _ | .save => false
  | _ => true

/-- Where the section at `j` is found behind an operation: it moves down when one before it goes. -/
def place (j : Nat) : Op → Nat
  | .remove i => if i < j then j - 1 else j
  | _ => j

def onHeaders (headers : List SectionHeader) : Op → List SectionHeader
  | .add o => headers ++ [o.header]
  | .remove i => headers.eraseIdx i
  | _ => headers

theorem place_of_keepsPlaces {op : Op} (h : op.keepsPlaces = true) (j : Nat) : op.place j = j := by
  cases op with
  | remove i => cases h
  | _ => rfl

theorem onHeaders_of_keepsPlaces {op : Op} (h : op.keepsPlaces = true)
    (headers : List SectionHeader) : op.onHeaders headers = headers := by
  cases op with
  | add o => cases h
  | remove i => cases h
  | _ => rfl

end Op

namespace Container

variable {c c' d : Container} {op : Op} {i j : Nat}

/-- The container is the same, and so are the bytes on its storage; the storage's cursor may have
moved. -/
def SameAs (c c' : Container) : Prop :=
  ∃ position, c' = { c with storage := { c.storage with position } }

theorem SameAs.refl (c : Container) : c.SameAs c := ⟨c.storage.position, rfl⟩

theorem SameAs.of_moved {s : Storage} (h : c.storage.Moved s) :
    c.SameAs { c with storage := s } := by
  obtain ⟨position, rfl⟩ := h
  exact ⟨position, rfl⟩

inductive Effect (c : Container) : Op → EStateM.Result Error Container Unit → Prop
  | failed {op : Op} {c' : Container} (e : Error) (h : c.SameAs c') : Effect c op (.error e c')
  | idle {op : Op} (hplaces : op.keepsPlaces = true) : Effect c op (.ok () c)
  | exchanged {op : Op} {i : Nat} {e : Entry} {s : Storage} (hop : op.section? = some i)
      (hplaces : op.keepsPlaces = true) (hi : c.directory.entries[i]? = some e)
      (hs : c.storage.Moved s) (payload : Option Payload) :
      Effect c op (.ok () { c with
        storage := s, directory := c.directory.set i { e with payload } })
  | added (o : SectionOptions) :
      Effect c (.add o) (.ok () { c with
        directory := { c.directory with
          entries := c.directory.entries ++ [.fresh o.header o.threshold] }
        modified := true })
  | removed {i : Nat} (hi : i < c.directory.size) :
      Effect c (.remove i) (.ok () { c with
        directory := { c.directory with entries := c.directory.entries.eraseIdx i }
        modified := true })

/-! ### What each operation comes to -/

/-- A load fails, finds the payload in memory, or puts it there. -/
theorem effect_of_load (hop : op.section? = some i) (hplaces : op.keepsPlaces = true)
    (c : Container) : Effect c op (silently (load i) c) := by
  unfold silently
  rw [load_eq]
  cases hi : c.directory.entries[i]? with
  | none => exact .failed _ (.refl c)
  | some e =>
    simp only
    cases e.payload with
    | some p => exact .idle hplaces
    | none =>
      rcases Section.read_cases i e.header c.storage with
        ⟨raw, s, hread, hmoved, -⟩ | ⟨f, s, hread, hmoved, -⟩
      · simp only [hread]
        exact .exchanged hop hplaces hi hmoved _
      · simp only [hread]
        exact .failed f (.of_moved hmoved)

theorem effect_of_write (i : Nat) (data : Bytes) (c : Container) :
    Effect c (.write i data) (write i data c) := by
  rw [write_eq]
  cases hi : c.directory.entries[i]? with
  | none => exact .failed _ (.refl c)
  | some e => exact .exchanged rfl rfl hi (.refl c.storage) _

theorem effect_of_unload (i : Nat) (c : Container) : Effect c (.unload i) (unload i c) := by
  rw [unload_eq]
  cases hi : c.directory.entries[i]? with
  | none => exact .failed _ (.refl c)
  | some e => exact .exchanged rfl rfl hi (.refl c.storage) _

theorem effect_of_editWith (i : Nat) (d : Edit) (c : Container) :
    Effect c (.edit i d) (editWith i d c) := by
  rw [editWith_eq]
  cases hi : c.directory.entries[i]? with
  | none => exact .failed _ (.refl c)
  | some e =>
    simp only
    cases e.payload with
    | none => exact .failed _ (.refl c)
    | some p => exact .exchanged rfl rfl hi (.refl c.storage) _

theorem effect_of_add (o : SectionOptions) (c : Container) :
    Effect c (.add o) (silently (add o) c) := by
  unfold silently
  rw [add_eq]
  by_cases hfull : c.directory.maxSections.toNat ≤ c.directory.size
  · simp only [if_pos hfull]
    exact .failed _ (.refl c)
  · simp only [if_neg hfull]
    exact .added o

theorem effect_of_remove (i : Nat) (c : Container) :
    Effect c (.remove i) (silently (remove i) c) := by
  unfold silently
  rw [remove_eq]
  cases hi : c.directory.entries[i]? with
  | none => exact .failed _ (.refl c)
  | some e =>
    obtain ⟨hlt, -⟩ := List.getElem?_eq_some_iff.1 hi
    exact .removed hlt

theorem effect_of_perform (hop : op ≠ .save) (c : Container) : Effect c op (perform op c) := by
  unfold perform
  cases op with
  | save => exact absurd rfl hop
  | add o => exact effect_of_add o c
  | write i data => exact effect_of_write i data c
  | edit i d => exact effect_of_editWith i d c
  | unload i => exact effect_of_unload i c
  | remove i => exact effect_of_remove i c
  | load i => exact effect_of_load rfl rfl c
  | read i =>
    simp only [silently_read]
    exact effect_of_load rfl rfl c

/-! ### What stays -/

/-- What an operation that succeeds leaves alone, if it is not a save. -/
structure Frame (c : Container) (op : Op) (c' : Container) : Prop where
  /-- The storage has the same bytes and refuses the same. -/
  storage : c.storage.Moved c'.storage
  header : c'.header = c.header
  maxSections : c'.directory.maxSections = c.directory.maxSections
  headers : c'.directory.headers = op.onHeaders c.directory.headers
  /-- The directory is marked as changed by adding and removing, and by nothing else. -/
  modified : c'.modified = (c.modified || !op.keepsPlaces)
  /-- Every other section has the same header, payload and marks. -/
  others : ∀ j < c.directory.size, op.section? ≠ some j →
    c'.directory.entries[op.place j]? = c.directory.entries[j]?

theorem frame_refl (h : op.keepsPlaces = true) (c : Container) : Frame c op c where
  storage := .refl c.storage
  header := rfl
  maxSections := rfl
  headers := (Op.onHeaders_of_keepsPlaces h _).symm
  modified := by rw [h, Bool.not_true, Bool.or_false]
  others := fun j _ _ => by rw [Op.place_of_keepsPlaces h]

/-- Exchanging a payload touches one section, and no header. -/
theorem frame_set {e : Entry} {s : Storage} (hop : op.section? = some i)
    (hplaces : op.keepsPlaces = true) (hi : c.directory.entries[i]? = some e)
    (hs : c.storage.Moved s) (payload : Option Payload) :
    Frame c op { c with storage := s, directory := c.directory.set i { e with payload } } where
  storage := hs
  header := rfl
  maxSections := rfl
  headers := by
    obtain ⟨hlt, rfl⟩ := List.getElem?_eq_some_iff.1 hi
    rw [Op.onHeaders_of_keepsPlaces hplaces, Directory.headers, Directory.set, List.map_set]
    have hlt' : i < (c.directory.entries.map Entry.header).length := by rwa [List.length_map]
    have hsame : c.directory.entries[i].header = (c.directory.entries.map Entry.header)[i] :=
      (List.getElem_map Entry.header).symm
    simp only [hsame, List.set_getElem_self]
    rfl
  modified := by rw [hplaces, Bool.not_true, Bool.or_false]
  others := by
    intro j _ hother
    have hne : i ≠ j := fun heq => hother (heq ▸ hop)
    rw [Op.place_of_keepsPlaces hplaces]
    exact List.getElem?_set_ne hne

theorem frame_append (o : SectionOptions) (c : Container) :
    Frame c (.add o) { c with
      directory := { c.directory with
        entries := c.directory.entries ++ [.fresh o.header o.threshold] }
      modified := true } where
  storage := .refl c.storage
  header := rfl
  maxSections := rfl
  headers := by
    rw [Directory.headers, List.map_append, List.map_singleton]
    rfl
  modified := (Bool.or_true _).symm
  others := fun j hj _ => List.getElem?_append_left hj

theorem frame_eraseIdx (i : Nat) (c : Container) :
    Frame c (.remove i) { c with
      directory := { c.directory with entries := c.directory.entries.eraseIdx i }
      modified := true } where
  storage := .refl c.storage
  header := rfl
  maxSections := rfl
  headers := (List.eraseIdx_map Entry.header c.directory.entries i).symm
  modified := (Bool.or_true _).symm
  others := by
    intro j _ hother
    have hne : i ≠ j := fun heq => hother (congrArg some heq)
    simp only [Op.place]
    by_cases hj : i < j
    · rw [if_pos hj, List.getElem?_eraseIdx_of_ge (by omega), Nat.sub_add_cancel (by omega)]
    · rw [if_neg hj, List.getElem?_eraseIdx_of_lt (by omega)]

/-- An operation other than saving fails and changes nothing, or succeeds within its frame. -/
theorem perform_cases (hop : op ≠ .save) (c : Container) :
    (∃ e c', perform op c = .error e c' ∧ c.SameAs c') ∨
      ∃ c', perform op c = .ok () c' ∧ Frame c op c' := by
  generalize hresult : perform op c = result
  have heffect := effect_of_perform hop c
  rw [hresult] at heffect
  cases heffect with
  | failed e h => exact .inl ⟨e, _, rfl, h⟩
  | idle hplaces => exact .inr ⟨_, rfl, frame_refl hplaces c⟩
  | exchanged hop hplaces hi hs payload => exact .inr ⟨_, rfl, frame_set hop hplaces hi hs payload⟩
  | added o => exact .inr ⟨_, rfl, frame_append o c⟩
  | removed hi => exact .inr ⟨_, rfl, frame_eraseIdx _ c⟩

/-- Copying a section leaves the container as it is, whether storage and writer play along or
not. -/
theorem sameAs_copy {σ : Type} (i : Nat) (w : Writer σ) (c : Container) (sink : σ) :
    c.SameAs (after (copy i w (c, sink))).1 := exists_after_copy i w c sink

theorem after_look {α : Type} (f : Directory → Except Error α) (c : Container) :
    after (look f c) = c := by
  unfold look
  cases f c.directory <;> rfl

theorem close_of_unmodified (h : c.isModified = false) : close c = .ok () c := by
  rw [close_eq, h]
  rfl

/-! ### Runs without a save -/

/-- What a caller can do to a container without saving it. -/
inductive Quiet (c : Container) : Container → Prop
  | perform (op : Op) (hop : op ≠ .save) : Quiet c (after (perform op c))
  | copy {σ : Type} (i : Nat) (w : Writer σ) (sink : σ) : Quiet c (after (copy i w (c, sink))).1
  | look {α : Type} (f : Directory → Except Error α) : Quiet c (after (look f c))
  | close (h : c.isModified = false) : Quiet c (after (close c))

theorem Quiet.untouched (h : Quiet c c') :
    c'.header = c.header ∧ c.storage.Moved c'.storage := by
  cases h with
  | look f =>
    rw [after_look]
    exact ⟨rfl, .refl _⟩
  | close h =>
    rw [close_of_unmodified h]
    exact ⟨rfl, .refl _⟩
  | copy i w sink =>
    obtain ⟨position, hsame⟩ := sameAs_copy i w c sink
    rw [hsame]
    exact ⟨rfl, position, rfl⟩
  | perform op hop =>
    rcases perform_cases hop c with ⟨e, d, hperform, position, rfl⟩ | ⟨d, hperform, hframe⟩
    · rw [hperform]
      exact ⟨rfl, position, rfl⟩
    · rw [hperform]
      exact ⟨hframe.header, hframe.storage⟩

/-- However long nothing is saved, main header and storage stay, but for the storage's cursor. -/
theorem untouched_of_quiet_run (h : Relation.ReflTransGen Quiet c c') :
    c'.header = c.header ∧ c.storage.Moved c'.storage := by
  induction h with
  | refl => exact ⟨rfl, .refl _⟩
  | tail _ hstep ih =>
    obtain ⟨hheader, position, hstorage⟩ := ih
    obtain ⟨hheader', position', hstorage'⟩ := hstep.untouched
    exact ⟨hheader'.trans hheader, position', by rw [hstorage', hstorage]⟩

/-- Of a container, whatever its storage refuses: an operation other than saving fails and leaves it
as it was, or succeeds and leaves its storage, its main header and every other section alone. Copying
a section and looking at the directory leave it as it was in any case, and so does closing it when it
is not modified. So no run without a save touches the bytes on storage. -/
theorem operations_are_local_and_atomic (c : Container) :
    (∀ op, op ≠ .save →
      (∃ e c', perform op c = .error e c' ∧ c.SameAs c') ∨
        ∃ c', perform op c = .ok () c' ∧ Frame c op c') ∧
    (∀ (σ : Type) (i : Nat) (w : Writer σ) (sink : σ),
      c.SameAs (after (copy i w (c, sink))).1) ∧
    (∀ (α : Type) (f : Directory → Except Error α), after (look f c) = c) ∧
    (c.isModified = false → close c = .ok () c) ∧
    ∀ c', Relation.ReflTransGen Quiet c c' →
      c'.header = c.header ∧ c'.storage.content = c.storage.content := by
  refine ⟨fun op hop => perform_cases hop c, fun σ i w sink => sameAs_copy i w c sink,
    fun α f => after_look f c, close_of_unmodified, fun c' hrun => ?_⟩
  obtain ⟨hheader, position, hstorage⟩ := untouched_of_quiet_run hrun
  exact ⟨hheader, by rw [hstorage]⟩

/-- For one, a clean container of two sections over a storage that refuses to be read. -/
theorem operations_are_local_and_atomic_without_reads :
    let c : Container :=
      { storage := { content := [9, 1, 2, 3, 9], refuses := Storage.refusing (some .read) }
        header := .fresh 0 1 (.ofBytes 16 [])
        directory :=
          { entries := [.ofStored { pointer := 1, csize := 3, size := 3 }, .fresh { ty := 5 } none]
            maxSections := 2 }
        modified := false }
    let c' := after (perform (.remove 0) (after (perform (.load 0) c)))
    Op.load 0 ≠ .save ∧ Op.remove 0 ≠ .save ∧ c.isModified = false ∧
      (∃ d, perform (.load 0) c = .error (.io (.refused .read)) d ∧ c.SameAs d) ∧
      (∃ d, perform (.remove 0) c = .ok () d ∧ Frame c (.remove 0) d) ∧
      close c = .ok () c ∧ Relation.ReflTransGen Quiet c c' ∧
      c'.storage.content = [9, 1, 2, 3, 9] := by
  intro c c'
  have hloads : Op.load 0 ≠ .save := nofun
  have hremoves : Op.remove 0 ≠ .save := nofun
  have hclean : c.isModified = false := rfl
  obtain ⟨hperform, -, -, hclose, hrun⟩ := operations_are_local_and_atomic c
  have hquiet : Relation.ReflTransGen Quiet c c' :=
    .tail (.tail .refl (.perform (.load 0) hloads)) (.perform (.remove 0) hremoves)
  refine ⟨hloads, hremoves, hclean, ?_, ?_, hclose hclean, hquiet, (hrun c' hquiet).2⟩
  · have hload : ∃ d, perform (.load 0) c = .error (.io (.refused .read)) d := ⟨_, rfl⟩
    obtain ⟨d, hload⟩ := hload
    rcases hperform (.load 0) hloads with ⟨e, d', hfails, hsame⟩ | ⟨d', hsucceeds, -⟩
    · rw [hload] at hfails
      cases hfails
      exact ⟨d, hload, hsame⟩
    · rw [hload] at hsucceeds
      cases hsucceeds
  · have hremove : ∃ d, perform (.remove 0) c = .ok () d := ⟨_, rfl⟩
    obtain ⟨d, hremove⟩ := hremove
    rcases hperform (.remove 0) hremoves with ⟨e, d', hfails, -⟩ | ⟨d', hsucceeds, hframe⟩
    · rw [hremove] at hfails
      cases hfails
    · rw [hremove] at hsucceeds
      cases hsucceeds
      exact ⟨d, hremove, hframe⟩

end Container

end SectionArchive
