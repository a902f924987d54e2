import Mathlib
import SectionArchive.Container.Save
import SectionArchive.Proofs.InStep
import SectionArchive.Proofs.SectionReading
/-!
Loading. A load brings at most one payload into memory and leaves every header and mark as it was;
loading all sections does so to each of them. Whether it succeeds or fails, nothing was lost: what
is in memory now was there before or is what storage holds.
-/

namespace SectionArchive

/-- An entry before and after its payload was loaded, if it was. -/
inductive Entry.Fetched (content : Bytes) : Entry → Entry → Prop
  | same (e : Entry) : Fetched content e e
  | loaded {e : Entry} {raw : Bytes} (hnone : e.payload = none)
      (hholds : Section.Holds content e.header raw) :
      Fetched content e { e with payload := some (.ofLoaded raw) }

theorem Entry.Fetched.trans {content : Bytes} {e e' e'' : Entry} (h : e.Fetched content e')
    (h' : e'.Fetched content e'') : e.Fetched content e'' := by
  cases h with
  | same => exact h'
  | loaded hnone hholds =>
    cases h' with
    | same => exact .loaded hnone hholds
    | loaded hnone' hholds' => cases hnone'

/-- Loading changes nothing but the payload. -/
theorem Entry.Fetched.same_marks {content : Bytes} {e e' : Entry} (h : e.Fetched content e') :
    e'.header = e.header ∧ e'.requestedFlags = e.requestedFlags ∧ e'.persisted = e.persisted := by
  cases h <;> exact ⟨rfl, rfl, rfl⟩

theorem Entry.map_header_of_fetched {content : Bytes} {p q : List Entry}
    (h : List.Forall₂ (Entry.Fetched content) p q) : q.map Entry.header = p.map Entry.header := by
  induction h with
  | nil => rfl
  | cons hfetched _ ih => rw [List.map_cons, List.map_cons, hfetched.same_marks.1, ih]

/-- Nor does loading change the flags that were asked for. -/
theorem Entry.valid_of_fetched {content : Bytes} {p q : List Entry}
    (h : List.Forall₂ (Entry.Fetched content) p q)
    (hflags : ∀ e ∈ p, Flags.Valid e.requestedFlags) : ∀ e ∈ q, Flags.Valid e.requestedFlags := by
  intro e' he'
  obtain ⟨e, he, hfetched⟩ := exists_mem_of_forall₂ h he'
  rw [hfetched.same_marks.2.1]
  exact hflags e he

/-- There is only one payload to load. -/
theorem Entry.Fetched.unique {content : Bytes} {e e' e'' : Entry} (h : e.Fetched content e')
    (h' : e.Fetched content e'') (hloaded : ∃ p, e'.payload = some p)
    (hloaded' : ∃ p, e''.payload = some p) : e' = e'' := by
  cases h with
  | same =>
    cases h' with
    | same => rfl
    | loaded hnone =>
      obtain ⟨p, hp⟩ := hloaded
      rw [hnone] at hp
      cases hp
  | @loaded raw hnone hholds =>
    cases h' with
    | same =>
      obtain ⟨p, hp⟩ := hloaded'
      rw [hnone] at hp
      cases hp
    | @loaded raw' _ hholds' =>
      obtain rfl : raw = raw' := hholds.unique hholds'
      rfl

/-- A loaded entry is not loaded again, whatever is on storage. -/
theorem Entry.Fetched.of_loaded {content : Bytes} {e e' : Entry} (h : e.Fetched content e')
    (hloaded : ∃ p, e.payload = some p) : e' = e := by
  cases h with
  | same => rfl
  | loaded hnone =>
    obtain ⟨p, hp⟩ := hloaded
    rw [hnone] at hp
    cases hp

namespace Container

/-- A container before and after payloads were loaded, if they were, over the bytes `content`: what
was in memory is the same, and what came to be is clean and held in the section's place. -/
structure Kept (content : Bytes) (c c' : Container) : Prop where
  header : c'.header = c.header
  maxSections : c'.directory.maxSections = c.directory.maxSections
  modified : c'.modified = c.modified
  entries : List.Forall₂ (Entry.Fetched content) c.directory.entries c'.directory.entries

namespace Kept

variable {content : Bytes} {c c' c'' : Container}

theorem refl (content : Bytes) (c : Container) : Kept content c c :=
  ⟨rfl, rfl, rfl, List.forall₂_same.2 fun e _ => .same e⟩

theorem trans (h : Kept content c c') (h' : Kept content c' c'') : Kept content c c'' :=
  ⟨h'.header.trans h.header, h'.maxSections.trans h.maxSections, h'.modified.trans h.modified,
    forall₂_comp (fun _ _ _ hfirst hmore => hfirst.trans hmore) h.entries h'.entries⟩

theorem headers (h : Kept content c c') : c'.directory.headers = c.directory.headers :=
  Entry.map_header_of_fetched h.entries

theorem size (h : Kept content c c') : c'.directory.size = c.directory.size :=
  h.entries.length_eq.symm

theorem isDirty (h : Kept content c c') :
    c'.directory.entries.map Entry.isDirty = c.directory.entries.map Entry.isDirty := by
  have hentries := h.entries
  generalize c.directory.entries = p, c'.directory.entries = q at hentries
  induction hentries with
  | nil => rfl
  | cons hfetched _ ih =>
    rw [List.map_cons, List.map_cons, ih]
    cases hfetched with
    | same => rfl
    | loaded hnone => simp [Entry.isDirty, hnone, Payload.ofLoaded]

/-- Loading payloads is no modification. -/
theorem isModified (h : Kept content c c') : c'.isModified = c.isModified := by
  have hany : ∀ entries : List Entry,
      entries.any Entry.isDirty = (entries.map Entry.isDirty).any id := by simp
  rw [Container.isModified, Container.isModified, h.modified, hany, h.isDirty, ← hany]

end Kept

/-- A container before and after payloads were loaded from its own storage, whose cursor alone
moved. -/
structure Refreshed (c c' : Container) : Prop extends Kept c.storage.content c c' where
  storage : c.storage.Moved c'.storage

namespace Refreshed

variable {c c' c'' : Container}

theorem content (h : Refreshed c c') : c'.storage.content = c.storage.content := by
  obtain ⟨position, hstorage⟩ := h.storage
  rw [hstorage]

theorem refuses (h : Refreshed c c') : c'.storage.refuses = c.storage.refuses := by
  obtain ⟨position, hstorage⟩ := h.storage
  rw [hstorage]

theorem trans (h : Refreshed c c') (h' : Refreshed c' c'') : Refreshed c c'' := by
  obtain ⟨position, hstorage⟩ := h.storage
  obtain ⟨position', hstorage'⟩ := h'.storage
  have hmore := h'.toKept
  rw [h.content] at hmore
  exact ⟨h.toKept.trans hmore, position', by rw [hstorage', hstorage]⟩

/-- Only the cursor of the storage moved. -/
theorem of_moved {s : Storage} (h : c.storage.Moved s) : Refreshed c { c with storage := s } :=
  ⟨⟨rfl, rfl, rfl, List.forall₂_same.2 fun e _ => .same e⟩, h⟩

theorem refl (c : Container) : Refreshed c c := of_moved (.refl _)

/-- One more payload is in memory. -/
theorem of_loaded {s : Storage} (h : c.storage.Moved s) {i : Nat} {e : Entry} {raw : Bytes}
    (hi : c.directory.entries[i]? = some e) (hnone : e.payload = none)
    (hholds : Section.Holds c.storage.content e.header raw) :
    Refreshed c { c with
      storage := s
      directory := c.directory.set i { e with payload := some (.ofLoaded raw) } } :=
  ⟨⟨rfl, rfl, rfl, forall₂_set Entry.Fetched.same hi (.loaded hnone hholds)⟩, h⟩

end Refreshed

def Resident (c : Container) (i : Nat) (p : Payload) : Prop :=
  ∃ e, c.directory.entries[i]? = some e ∧ e.payload = some p

theorem load_eq (i : Nat) (c : Container) :
    load i c =
      match c.directory.entries[i]? with
      | none => .error (.unknownSection i) c
      | some e =>
        match e.payload with
        | some p => .ok p c
        | none =>
          match Section.read i e.header c.storage with
          | .error f s => .error f { c with storage := s }
          | .ok raw s =>
            .ok (.ofLoaded raw) { c with
              storage := s
              directory := c.directory.set i { e with payload := some (.ofLoaded raw) } } := by
  simp only [load, bind, EStateM.bind, look, Directory.entry]
  cases c.directory.entries[i]? with
  | none => rfl
  | some e =>
    cases hpayload : e.payload with
    | some p => simp only [hpayload]; rfl
    | none =>
      simp only [hpayload, EStateM.bind, onStorage]
      cases Section.read i e.header c.storage <;> rfl

/-- A load succeeds with what is in memory from then on, or it fails; either way nothing is lost. -/
theorem load_cases (i : Nat) (c : Container) :
    (∃ p c', load i c = .ok p c' ∧ Refreshed c c' ∧ Resident c' i p) ∨
      ∃ e c', load i c = .error e c' ∧ Refreshed c c' := by
  rw [load_eq]
  cases hentry : c.directory.entries[i]? with
  | none => exact .inr ⟨_, _, rfl, .refl c⟩
  | some e =>
    cases hpayload : e.payload with
    | some p => exact .inl ⟨p, c, by simp only [hpayload], .refl c, e, hentry, hpayload⟩
    | none =>
      simp only [hpayload]
      rcases Section.read_cases i e.header c.storage with
        ⟨raw, s, hread, hmoved, hholds⟩ | ⟨f, s, hread, hmoved, -⟩
      · obtain ⟨hi, -⟩ := List.getElem?_eq_some_iff.1 hentry
        exact .inl ⟨_, _, by rw [hread], .of_loaded hmoved hentry hpayload hholds, _,
          List.getElem?_set_self hi, rfl⟩
      · exact .inr ⟨_, _, by rw [hread], .of_moved hmoved⟩

/-- A load fails for want of the section, or of a payload in its place, or because it is refused. -/
theorem load_error {i : Nat} {c c' : Container} {err : Error} (h : load i c = .error err c') :
    c.directory.entries[i]? = none ∨
      ∃ e, c.directory.entries[i]? = some e ∧ e.payload = none ∧
        (Section.contained i c.storage.content e.header = .error err ∨
          ∃ op f, c.storage.refuses op = some f ∧ err = .io f) := by
  rw [load_eq] at h
  cases hentry : c.directory.entries[i]? with
  | none => exact .inl rfl
  | some e =>
    refine .inr ⟨e, rfl, ?_⟩
    cases hpayload : e.payload with
    | some p =>
      simp only [hentry, hpayload] at h
      cases h
    | none =>
      simp only [hentry, hpayload] at h
      rcases Section.read_cases i e.header c.storage with
        ⟨raw, s, hread, -⟩ | ⟨f, s, hread, -, hcause⟩
      · rw [hread] at h
        cases h
      · rw [hread] at h
        cases h
        exact ⟨rfl, hcause⟩

/-- What was in memory stays there. -/
theorem Kept.resident {content : Bytes} {c c' : Container} (h : Kept content c c') {i : Nat}
    {p : Payload} (hp : Resident c i p) : Resident c' i p := by
  obtain ⟨e, hentry, hpayload⟩ := hp
  obtain ⟨e', hentry', hfetched⟩ := exists_getElem?_of_forall₂ h.entries.flip hentry
  refine ⟨e', hentry', ?_⟩
  rw [Entry.Fetched.of_loaded hfetched ⟨p, hpayload⟩]
  exact hpayload

theorem loadAllWith_cons (interlude : Nat → Container → Container) (i : Nat) (rest : List Nat)
    (c : Container) :
    loadAllWith interlude (i :: rest) c =
      match load i (interlude i c) with
      | .error e c' => .error e c'
      | .ok _ c' => loadAllWith interlude rest c' := by
  simp only [loadAllWith, bind, EStateM.bind, modify, modifyGet, MonadStateOf.modifyGet,
    EStateM.modifyGet]
  cases load i (interlude i c) <;> rfl

/-- Loading listed sections brings all of them into memory, or it fails. Either way whatever loads
and interludes keep was kept. -/
theorem loadAllWith_cases {interlude : Nat → Container → Container}
    {R : Container → Container → Prop} (htrans : ∀ {c c' c''}, R c c' → R c' c'' → R c c'')
    (hrefreshed : ∀ {c c'}, Refreshed c c' → R c c') (hinterlude : ∀ i c, R c (interlude i c))
    (hresident : ∀ {c c' i p}, R c c' → Resident c i p → Resident c' i p) (indices : List Nat)
    (c : Container) :
    (∃ c', loadAllWith interlude indices c = .ok () c' ∧ R c c' ∧
        ∀ i ∈ indices, ∃ p, Resident c' i p) ∨
      ∃ e c', loadAllWith interlude indices c = .error e c' ∧ R c c' := by
  induction indices generalizing c with
  | nil => exact .inl ⟨c, rfl, hrefreshed (.refl c), by simp⟩
  | cons i rest ih =>
    rw [loadAllWith_cons]
    rcases load_cases i (interlude i c) with ⟨p, d, hload, hd, hp⟩ | ⟨e, d, hload, hd⟩
    all_goals
      have hfirst : R c d := htrans (hinterlude i c) (hrefreshed hd)
      rw [hload]
    · rcases ih d with ⟨d', hrest, hmore, hall⟩ | ⟨e, d', hrest, hmore⟩
      · refine .inl ⟨d', hrest, htrans hfirst hmore, fun j hj => ?_⟩
        rcases List.mem_cons.1 hj with rfl | hj
        · exact ⟨p, hresident hmore hp⟩
        · exact hall j hj
      · exact .inr ⟨e, d', hrest, htrans hfirst hmore⟩
    · exact .inr ⟨e, d, rfl, hfirst⟩

/-- Loading listed sections brings all of them into memory, or it fails; either way nothing was
lost. -/
theorem loadAll_cases (indices : List Nat) (c : Container) :
    (∃ c', loadAll indices c = .ok () c' ∧ Refreshed c c' ∧ ∀ i ∈ indices, ∃ p, Resident c' i p) ∨
      ∃ e c', loadAll indices c = .error e c' ∧ Refreshed c c' :=
  loadAllWith_cases (R := Refreshed) Refreshed.trans (fun h => h) (fun _ => .refl)
    (fun h => h.resident) indices c

def AllLoaded (c : Container) : Prop := ∀ e ∈ c.directory.entries, ∃ p, e.payload = some p

/-- After loading the whole directory every entry is loaded. -/
theorem allLoaded_of_resident {c c' : Container} (h : c'.directory.size = c.directory.size)
    (hall : ∀ i ∈ List.range c.directory.size, ∃ p, Resident c' i p) : c'.AllLoaded := by
  intro e he
  obtain ⟨i, hi, rfl⟩ := List.getElem_of_mem he
  have hsize : i < c.directory.size := by rw [← h]; exact hi
  obtain ⟨p, e, hentry, hpayload⟩ := hall i (List.mem_range.2 hsize)
  rw [List.getElem?_eq_getElem hi, Option.some.injEq] at hentry
  exact ⟨p, hentry ▸ hpayload⟩

/-! ### Loading that succeeds -/

/-- The storage does what saving asks for and holds every payload that is not in memory. -/
structure Loadable (c : Container) : Prop where
  obliging : c.storage.Obliging
  holds : ∀ e ∈ c.directory.entries, e.payload = none →
    c.storage.Reaches e.header.pointer.toNat ∧ ∃ raw, Section.Holds c.storage.content e.header raw

/-- What is in memory need not be on storage. -/
theorem AllLoaded.loadable {c : Container} (h : c.AllLoaded) (hs : c.storage.Obliging) :
    c.Loadable := by
  refine ⟨hs, fun e he hnone => ?_⟩
  obtain ⟨p, hp⟩ := h e he
  rw [hnone] at hp
  cases hp

theorem Refreshed.loadable {c c' : Container} (h : Refreshed c c') (hc : c.Loadable) :
    c'.Loadable := by
  refine ⟨fun op => by rw [h.refuses]; exact hc.obliging op, fun e' he' hnone => ?_⟩
  obtain ⟨e, he, hfetched⟩ := exists_mem_of_forall₂ h.entries he'
  rw [Storage.Reaches, h.content, h.refuses]
  cases hfetched with
  | same => exact hc.holds _ he hnone
  | loaded => cases hnone

theorem Loadable.load {c : Container} (hc : c.Loadable) {i : Nat} (hi : i < c.directory.size) :
    ∃ p c', load i c = .ok p c' := by
  rw [load_eq, List.getElem?_eq_getElem hi]
  cases hpayload : c.directory.entries[i].payload with
  | some p => exact ⟨p, c, by simp only [hpayload]⟩
  | none =>
    obtain ⟨hreach, raw, hholds⟩ := hc.holds _ (List.getElem_mem hi) hpayload
    obtain ⟨position, hread⟩ := Section.read_eq hc.obliging.readable hreach i
    rw [hholds i] at hread
    simp only [hpayload, hread]
    exact ⟨_, _, rfl⟩

theorem Loadable.loadAll {c : Container} (hc : c.Loadable) {indices : List Nat}
    (hall : ∀ i ∈ indices, i < c.directory.size) : ∃ c', loadAll indices c = .ok () c' := by
  induction indices generalizing c with
  | nil => exact ⟨c, rfl⟩
  | cons i rest ih =>
    obtain ⟨p, c', hload⟩ := hc.load (hall i (List.mem_cons_self ..))
    rcases load_cases i c with ⟨p', c'', hload', hrefreshed, -⟩ | ⟨e, c'', hload', -⟩
    · rw [hload] at hload'
      cases hload'
      rw [Container.loadAll, loadAllWith_cons, id, hload]
      refine ih (hrefreshed.loadable hc) fun j hj => ?_
      rw [hrefreshed.size]
      exact hall j (List.mem_cons_of_mem _ hj)
    · rw [hload] at hload'
      cases hload'

end Container

end SectionArchive
