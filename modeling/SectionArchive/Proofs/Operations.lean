import Mathlib
import SectionArchive.Proofs.Loading
import SectionArchive.Proofs.Opening
/-!
The operations on a container, each in one equation, and what becomes of a container that was
created or opened. Operations may fail, payloads may be exchanged and the storage may change under
the container at any time; the container still has the format's signature and no more sections than
it may have.
-/

namespace SectionArchive

/-- The flags of a header that raises no complaint select something. -/
theorem Opening.valid_of_refusal? {fileSize : UInt64} {i : Nat} {h : SectionHeader}
    (hnone : refusal? fileSize i h = none) : Flags.Valid h.flags := by
  unfold refusal? at hnone
  split_ifs at hnone with hflags
  rw [← Flags.packing?_eq_none_iff, ← Flags.checksum?_eq_none_iff, not_or, not_or] at hflags
  exact ⟨Option.isSome_iff_ne_none.2 hflags.1, Option.isSome_iff_ne_none.2 hflags.2.1⟩

def answer {σ α : Type} : EStateM.Result Error σ α → Except Error α
  | .ok a _ => .ok a
  | .error e _ => .error e

/-- What is done to a loaded payload as to a small file. -/
inductive Edit
  | write (data : Bytes)
  | writeAll (data : Bytes)
  | replace (data : Bytes)
  | read (n : Nat)
  | readExact (n : Nat)
  | readToEnd
  | readText
  | seek (whence : SeekFrom)

def Edit.apply (p : Payload) : Edit → Payload
  | .write data => p.write data
  | .writeAll data => p.writeAll data
  | .replace data => p.replace data
  | .read n => (p.read n).2
  | .readExact n => (p.readExact n).2
  | .readToEnd => p.readToEnd.2
  | .readText => p.readText.2
  | .seek whence => (p.seek whence).2

inductive Op
  | add (o : SectionOptions)
  | write (i : Nat) (data : Bytes)
  | edit (i : Nat) (e : Edit)
  | load (i : Nat)
  | read (i : Nat)
  | unload (i : Nat)
  | remove (i : Nat)
  | save

namespace Container

/-- The state behind an operation, whether it succeeded or not. -/
def after {σ α : Type} : EStateM.Result Error σ α → σ
  | .ok _ s => s
  | .error _ s => s

def editWith (i : Nat) (e : Edit) : Action Unit := fun c =>
  match c.loaded i with
  | .error f => .error f c
  | .ok p => edit i (e.apply p) c

def silently {α : Type} (m : Action α) : Action Unit := fun c =>
  match m c with
  | .error e c => .error e c
  | .ok _ c => .ok () c

def perform : Op → Action Unit
  | .add o => silently (add o)
  | .write i data => write i data
  | .edit i e => editWith i e
  | .load i => silently (load i)
  | .read i => silently (read i)
  | .unload i => unload i
  | .remove i => silently (remove i)
  | .save => save

/-! ### What each operation does -/

theorem unload_eq (i : Nat) (c : Container) :
    unload i c =
      match c.directory.entries[i]? with
      | none => .error (.unknownSection i) c
      | some e =>
        .ok () { c with directory :=
          c.directory.set i { e with payload := if e.persisted then none else some {} } } := by
  simp only [unload, bind, EStateM.bind, look, Directory.entry]
  cases c.directory.entries[i]? <;> rfl

theorem write_eq (i : Nat) (data : Bytes) (c : Container) :
    write i data c =
      match c.directory.entries[i]? with
      | none => .error (.unknownSection i) c
      | some e =>
        .ok () { c with directory :=
          c.directory.set i { e with payload := some { bytes := data, dirty := true } } } := by
  simp only [write, bind, EStateM.bind, look, Directory.entry]
  cases c.directory.entries[i]? <;> rfl

theorem edit_eq (i : Nat) (p : Payload) (c : Container) :
    edit i p c =
      match c.directory.entries[i]? with
      | none => .error (.unknownSection i) c
      | some e =>
        if e.payload.isSome then
          .ok () { c with directory := c.directory.set i { e with payload := some p } }
        else .error (.sectionNotLoaded i) c := by
  simp only [edit, bind, EStateM.bind, look, Directory.entry]
  cases c.directory.entries[i]? with
  | none => rfl
  | some e =>
    cases hpayload : e.payload <;> simp only [Entry.isLoaded, hpayload] <;> rfl

theorem editWith_eq (i : Nat) (d : Edit) (c : Container) :
    editWith i d c =
      match c.directory.entries[i]? with
      | none => .error (.unknownSection i) c
      | some e =>
        match e.payload with
        | none => .error (.sectionNotLoaded i) c
        | some p =>
          .ok () { c with directory :=
            c.directory.set i { e with payload := some (d.apply p) } } := by
  simp only [editWith, loaded, Directory.entry, bind, Except.bind]
  cases hi : c.directory.entries[i]? with
  | none => rfl
  | some e =>
    cases hpayload : e.payload with
    | none => simp only [hpayload]; rfl
    | some p =>
      simp only [hpayload, pure, Except.pure, edit_eq, hi, Option.isSome_some, if_true]

theorem after_silently {α : Type} (m : Action α) (c : Container) :
    after (silently m c) = after (m c) := by
  unfold silently
  cases m c <;> rfl

theorem add_eq (o : SectionOptions) (c : Container) :
    add o c =
      if c.directory.maxSections.toNat ≤ c.directory.size then
        .error (.capacity (c.directory.size + 1) c.directory.maxSections) c
      else
        .ok c.directory.size { c with
          directory := { c.directory with
            entries := c.directory.entries ++ [.fresh o.header o.threshold] }
          modified := true } := by
  simp only [add, bind, EStateM.bind, look, Directory.add]
  by_cases hfull : c.directory.maxSections.toNat ≤ c.directory.size
  · simp only [if_pos hfull]
  · simp only [if_neg hfull]
    rfl

theorem remove_eq (i : Nat) (c : Container) :
    remove i c =
      match c.directory.entries[i]? with
      | none => .error (.unknownSection i) c
      | some e =>
        .ok e.header { c with
          directory := { c.directory with entries := c.directory.entries.eraseIdx i }
          modified := true } := by
  simp only [remove, bind, EStateM.bind, look, Directory.remove, Directory.entry]
  cases c.directory.entries[i]? <;> rfl

theorem read_eq (i : Nat) (c : Container) :
    read i c =
      match load i c with
      | .error e c' => .error e c'
      | .ok p c' => .ok p.bytes c' := by
  simp only [read, bind, EStateM.bind]
  cases load i c <;> rfl

theorem silently_read (i : Nat) (c : Container) :
    silently (read i) c = silently (load i) c := by
  unfold silently
  rw [read_eq]
  cases load i c <;> rfl

theorem copy_eq {σ : Type} (i : Nat) (w : Writer σ) (c : Container) (sink : σ) :
    copy i w (c, sink) =
      match c.directory.entries[i]? with
      | none => .error (.unknownSection i) (c, sink)
      | some e =>
        match e.payload with
        | some p =>
          match w.writeAll p.bytes sink with
          | .error f sink => .error (.sectionIo f) (c, sink)
          | .ok () sink => .ok p.bytes.length (c, sink)
        | none =>
          match Section.stream i e.header w (c.storage, sink) with
          | .error e (storage, sink) => .error e ({ c with storage }, sink)
          | .ok n (storage, sink) => .ok n ({ c with storage }, sink) := by
  simp only [copy, Directory.entry]
  cases c.directory.entries[i]? <;> rfl

theorem saveWith_eq (interlude : Nat → Container → Container) (c : Container) :
    saveWith interlude c =
      if MainHeader.isKnownVersion c.header.version = false then
        .error (.badVersion c.header.version) c
      else
        match loadAllWith interlude (List.range c.directory.size) c with
        | .error e d => .error e d
        | .ok () d =>
          match encodeFrom 0 d.directory.entries with
          | .error e => .error e d
          | .ok sections =>
            let i := Image.ofSections d.header sections
            let d := interlude d.directory.size d
            match Storage.store i.bytes d.storage with
            | .error f s => .error (.io f) { d with storage := s }
            | .ok () s => .ok () (commit i { d with storage := s }) := by
  simp only [saveWith, bind, EStateM.bind, get, getThe, MonadStateOf.get, EStateM.get]
  cases MainHeader.isKnownVersion c.header.version with
  | false => rfl
  | true =>
    simp only [Bool.not_true, Bool.false_eq_true, Bool.true_eq_false, if_false, EStateM.bind,
      EStateM.get]
    cases loadAllWith interlude (List.range c.directory.size) c with
    | error e d => rfl
    | ok u d =>
      simp only [image, bind, Except.bind]
      cases encodeFrom 0 d.directory.entries with
      | error e => rfl
      | ok sections =>
        simp only [pure, Except.pure, ofExcept_ok, modify, modifyGet, MonadStateOf.modifyGet,
          EStateM.modifyGet, onStorage, Section.onStorage]
        cases Storage.store (Image.ofSections d.header sections).bytes
          (interlude d.directory.size d).storage <;> rfl

theorem save_eq (c : Container) :
    save c =
      if MainHeader.isKnownVersion c.header.version = false then
        .error (.badVersion c.header.version) c
      else
        match loadAll (List.range c.directory.size) c with
        | .error e c' => .error e c'
        | .ok () c' =>
          match encodeFrom 0 c'.directory.entries with
          | .error e => .error e c'
          | .ok sections =>
            match Storage.store (Image.ofSections c'.header sections).bytes c'.storage with
            | .error f s => .error (.io f) { c' with storage := s }
            | .ok () s =>
              .ok () (commit (.ofSections c'.header sections) { c' with storage := s }) :=
  saveWith_eq (fun _ => id) c

theorem close_eq (c : Container) :
    close c = if c.isModified then save c else .ok () c := by
  simp only [close, bind, EStateM.bind, get, getThe, MonadStateOf.get, EStateM.get]
  cases c.isModified <;> rfl

/-! ### What becomes of a container -/

/-- Copying a section moves only the cursor of the storage, whatever storage and writer make of
it. -/
theorem exists_after_copy {σ : Type} (i : Nat) (w : Writer σ) (c : Container) (sink : σ) :
    ∃ position, (after (copy i w (c, sink))).1 =
      { c with storage := { c.storage with position } } := by
  rw [copy_eq]
  cases c.directory.entries[i]? with
  | none => exact ⟨c.storage.position, rfl⟩
  | some e =>
    simp only
    cases e.payload with
    | some p =>
      simp only
      cases w.writeAll p.bytes sink <;> exact ⟨c.storage.position, rfl⟩
    | none =>
      rcases Section.stream_cases i e.header w c.storage sink with
        ⟨n, s, sink', hstream, position, rfl⟩ | ⟨f, s, sink', hstream, position, rfl⟩
      all_goals
        simp only [hstream]
        exact ⟨position, rfl⟩

/-- What happens to a container, the storage under it included. -/
inductive Change (foreign : Payload → Prop) (c : Container) : Container → Prop
  | perform (op : Op) : Change foreign c (after (perform op c))
  /-- A payload from elsewhere is put in the place of a loaded one. -/
  | exchange (i : Nat) {p : Payload} (hp : foreign p) : Change foreign c (after (edit i p c))
  | copy {σ : Type} (i : Nat) (w : Writer σ) (sink : σ) :
      Change foreign c (after (copy i w (c, sink))).1
  | close : Change foreign c (after (close c))
  /-- The storage gets other bytes, or refuses other things than before. -/
  | outside (s : Storage) : Change foreign c { c with storage := s }

/-- The containers that come of creating or opening one with room for `maxSections` sections, while
every storage under it is an allowed one and every payload from elsewhere is a `foreign` one. -/
inductive Evolved (foreign : Payload → Prop) (allowed : Storage → Prop) (maxSections : UInt32) :
    Container → Prop
  | created {s : Storage} {o : CreateOptions} (hroom : o.maxSections = maxSections) :
      Evolved foreign allowed maxSections (create s o)
  | opened {s s' : Storage} {c : Container} (h : ofStorage maxSections s = .ok c s') :
      Evolved foreign allowed maxSections c
  | changed {c c' : Container} (h : Evolved foreign allowed maxSections c)
      (hchange : Change foreign c c') (hs : allowed c'.storage) :
      Evolved foreign allowed maxSections c'

/-- The containers that creating or opening one leads to, over whatever storage and with whatever
payloads. -/
def Reachable (c : Container) : Prop :=
  ∃ maxSections, Evolved (fun _ => True) (fun _ => True) maxSections c

structure Bounded (c : Container) : Prop where
  signature : c.header.signature = MainHeader.magic
  size : c.directory.entries.length ≤ c.directory.maxSections.toNat

variable {c c' : Container}

theorem bounded_opened {maxSections : UInt32} {bs : Bytes} {h : MainHeader}
    {headers : List SectionHeader} (hverdict : Opening.verdict maxSections bs = .ok (h, headers))
    (s : Storage) : Bounded (Opening.opened maxSections s h headers) := by
  obtain ⟨hmagic, -, hcount, -⟩ := Opening.verdict_eq_ok hverdict
  refine ⟨hmagic, ?_⟩
  simp only [Opening.opened, List.length_map]
  exact hcount

theorem Bounded.refreshed (hc : c.Bounded) (h : Refreshed c c') : c'.Bounded :=
  ⟨h.header ▸ hc.signature, by rw [h.maxSections, ← h.entries.length_eq]; exact hc.size⟩

/-- Exchanging an entry leaves as many as there were. -/
theorem Bounded.set (hc : c.Bounded) (i : Nat) (e : Entry) :
    Bounded { c with directory := c.directory.set i e } := by
  refine ⟨hc.signature, ?_⟩
  simp only [Directory.set, List.length_set]
  exact hc.size

theorem Bounded.load (hc : c.Bounded) (i : Nat) : (after (load i c)).Bounded := by
  rcases load_cases i c with ⟨p, c', hload, hrefreshed, -⟩ | ⟨e, c', hload, hrefreshed⟩
  all_goals
    rw [hload]
    exact hc.refreshed hrefreshed

theorem Bounded.copy (hc : c.Bounded) {σ : Type} (i : Nat) (w : Writer σ) (sink : σ) :
    (after (copy i w (c, sink))).1.Bounded := by
  obtain ⟨position, hcopy⟩ := exists_after_copy i w c sink
  rw [hcopy]
  exact ⟨hc.signature, hc.size⟩

theorem Bounded.save (hc : c.Bounded) : (after (save c)).Bounded := by
  rw [save_eq]
  split
  · exact hc
  · rcases loadAll_cases (List.range c.directory.size) c with
      ⟨c', hload, hrefreshed, -⟩ | ⟨e, c', hload, hrefreshed⟩
    · have hc' := hc.refreshed hrefreshed
      rw [hload]
      simp only
      split
      · exact hc'
      · next sections _ =>
        split
        · exact ⟨hc'.signature, hc'.size⟩
        · refine ⟨hc'.signature, Nat.le_trans ?_ hc'.size⟩
          simp only [after, commit, List.length_zipWith]
          exact Nat.min_le_left ..
    · rw [hload]
      exact hc.refreshed hrefreshed

theorem Bounded.edit (hc : c.Bounded) (i : Nat) (p : Payload) : (after (edit i p c)).Bounded := by
  rw [edit_eq]
  cases c.directory.entries[i]? with
  | none => exact hc
  | some e =>
    simp only
    split
    · exact hc.set i _
    · exact hc

theorem Bounded.perform (hc : c.Bounded) (op : Op) : (after (perform op c)).Bounded := by
  unfold Container.perform
  cases op with
  | save => exact hc.save
  | load i =>
    simp only [after_silently]
    exact hc.load i
  | read i =>
    simp only [silently_read, after_silently]
    exact hc.load i
  | edit i d =>
    simp only [editWith]
    cases loaded c i with
    | error e => exact hc
    | ok p => exact hc.edit i _
  | unload i =>
    simp only [unload_eq]
    cases c.directory.entries[i]? with
    | none => exact hc
    | some e => exact hc.set i _
  | write i data =>
    simp only [write_eq]
    cases c.directory.entries[i]? with
    | none => exact hc
    | some e => exact hc.set i _
  | add o =>
    simp only [after_silently, add_eq]
    split
    · exact hc
    · next hroom =>
      refine ⟨hc.signature, ?_⟩
      simp only [after, List.length_append, List.length_singleton]
      exact Nat.lt_of_not_le hroom
  | remove i =>
    simp only [after_silently, remove_eq]
    cases c.directory.entries[i]? with
    | none => exact hc
    | some e => exact ⟨hc.signature, Nat.le_trans (List.length_eraseIdx_le ..) hc.size⟩

variable {foreign : Payload → Prop} {allowed : Storage → Prop} {maxSections : UInt32}

/-- Nothing that happens to a container breaks its bounds. -/
theorem Bounded.change (hc : c.Bounded) (h : Change foreign c c') : c'.Bounded := by
  cases h with
  | perform op => exact hc.perform op
  | exchange i _ => exact hc.edit i _
  | copy i w sink => exact hc.copy i w sink
  | outside s => exact ⟨hc.signature, hc.size⟩
  | close =>
    rw [close_eq]
    split
    · exact hc.save
    · exact hc

theorem Evolved.bounded (h : Evolved foreign allowed maxSections c) : c.Bounded := by
  induction h with
  | created hroom => exact ⟨rfl, Nat.zero_le _⟩
  | opened h =>
    obtain ⟨position, header, headers, hverdict, rfl⟩ := ofStorage_ok h
    exact bounded_opened hverdict _
  | changed _ hchange _ ih => exact ih.change hchange

namespace Reachable

theorem bounded (h : Reachable c) : c.Bounded := by
  obtain ⟨maxSections, h⟩ := h
  exact h.bounded

theorem create (s : Storage) (o : CreateOptions) : Reachable (create s o) := ⟨_, .created rfl⟩

theorem opened {s s' : Storage} (h : ofStorage maxSections s = .ok c s') : Reachable c :=
  ⟨maxSections, .opened h⟩

theorem perform (h : Reachable c) (op : Op) : Reachable (after (perform op c)) := by
  obtain ⟨maxSections, h⟩ := h
  exact ⟨maxSections, .changed h (.perform op) trivial⟩

theorem add (h : Reachable c) (o : SectionOptions) : Reachable (after (add o c)) := by
  have hadded := h.perform (.add o)
  rwa [Container.perform, after_silently] at hadded

theorem write (h : Reachable c) (i : Nat) (data : Bytes) : Reachable (after (write i data c)) :=
  h.perform (.write i data)

end Reachable

end Container

end SectionArchive
