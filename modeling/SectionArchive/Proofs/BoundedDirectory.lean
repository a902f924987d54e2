import Mathlib
import SectionArchive.Proofs.Opening
/-!
The directory as a list. Entries are appended and taken out; a change that is refused leaves the
directory as it is. So after any changes, to a new directory or to one read from storage, the headers
are what the same changes make of a plain list of bounded length, and every call is answered from
that list: by its length, by its element at an index, or by the first element of a type.
-/

namespace SectionArchive

namespace Directory

inductive Change
  | add (template : SectionHeader) (threshold : Option UInt32)
  | remove (index : Nat)

def change (d : Directory) : Change → Directory
  | .add template threshold =>
    match d.add template threshold with
    | .ok (_, d) => d
    | .error _ => d
  | .remove index =>
    match d.remove index with
    | .ok (_, d) => d
    | .error _ => d

def changeAll (d : Directory) (changes : List Change) : Directory := changes.foldl change d

/-- The directories that changes begin with: a new one, or one that was read. -/
inductive Started (maxSections : UInt32) : Directory → Prop
  | new : Started maxSections { maxSections }
  | loaded {bs rest : Bytes} {count : UInt32} {d : Directory}
      (h : load bs count maxSections = .ok (d, rest)) : Started maxSections d

/-- What a change makes of a plain list that may have `limit` elements; `make` gives the new one. -/
def Change.onList {α : Type} (limit : Nat) (make : SectionHeader → Option UInt32 → α)
    (l : List α) : Change → List α
  | .add template threshold => if l.length < limit then l ++ [make template threshold] else l
  | .remove index => l.eraseIdx index

def newHeader (template : SectionHeader) (_ : Option UInt32) : SectionHeader :=
  { pointer := 0, csize := 0, size := 0, checksum := 0, ty := template.ty, flags := template.flags }

structure Extended (d : Directory) (template : SectionHeader) (threshold : Option UInt32)
    (d' : Directory) : Prop where
  maxSections : d'.maxSections = d.maxSections
  size : d'.size = d.size + 1
  before : ∀ j < d.size, d'.entries[j]? = d.entries[j]?
  last : ∃ e p, d'.entries[d.size]? = some e ∧ e.header = newHeader template threshold ∧
    e.payload = some p ∧ p.bytes = [] ∧ p.dirty = false ∧ e.threshold = threshold ∧
    e.requestedFlags = template.flags ∧ e.persisted = false

structure Shortened (d : Directory) (i : Nat) (d' : Directory) : Prop where
  maxSections : d'.maxSections = d.maxSections
  size : d'.size + 1 = d.size
  before : ∀ j < i, d'.entries[j]? = d.entries[j]?
  behind : ∀ j, i ≤ j → d'.entries[j]? = d.entries[j + 1]?

structure AnswersAsList (maxSections : UInt32) (d : Directory) : Prop where
  bound : d.size ≤ maxSections.toNat
  add_full : ∀ template threshold, d.size = maxSections.toNat →
    d.add template threshold = .error (.capacity (d.size + 1) maxSections) ∧
      d.change (.add template threshold) = d
  add : ∀ template threshold, d.size < maxSections.toNat →
    ∃ d', d.add template threshold = .ok (d.size, d') ∧ d.Extended template threshold d' ∧
      d.change (.add template threshold) = d'
  unknown : ∀ i, d.size ≤ i → d.remove i = .error (.unknownSection i) ∧
    d.entry i = .error (.unknownSection i) ∧ d.header i = .error (.unknownSection i) ∧
    d.change (.remove i) = d
  remove : ∀ i, i < d.size → ∃ e d', d.entries[i]? = some e ∧ d.entry i = .ok e ∧
    d.header i = .ok e.header ∧ d.remove i = .ok (e.header, d') ∧ d.Shortened i d' ∧
    d.change (.remove i) = d'
  find : ∀ ty i, d.findType? ty = some i ↔
    (∃ h, d.headers[i]? = some h ∧ h.ty = ty) ∧
      ∀ j < i, ∀ h, d.headers[j]? = some h → h.ty ≠ ty
  find_none : ∀ ty, d.findType? ty = none ↔ ∀ h ∈ d.headers, h.ty ≠ ty

variable {maxSections : UInt32} {d : Directory}

/-! ### Plain lists -/

theorem Change.length_onList_le {α : Type} {limit : Nat} {make : SectionHeader → Option UInt32 → α}
    {l : List α} (h : l.length ≤ limit) (c : Change) : (c.onList limit make l).length ≤ limit := by
  cases c with
  | add template threshold =>
    simp only [onList]
    split
    · next hroom =>
      rw [List.length_append, List.length_singleton]
      exact hroom
    · exact h
  | remove index => exact Nat.le_trans (List.length_eraseIdx_le ..) h

theorem Change.map_onList {α β : Type} {limit : Nat} {make : SectionHeader → Option UInt32 → α}
    (f : α → β) (l : List α) (c : Change) :
    (c.onList limit make l).map f = c.onList limit (fun t n => f (make t n)) (l.map f) := by
  cases c with
  | add template threshold =>
    simp only [onList, List.length_map]
    split
    · rw [List.map_append, List.map_singleton]
    · rfl
  | remove index => exact (List.eraseIdx_map f l index).symm

/-! ### One change -/

variable {i : Nat}

theorem add_of_le (h : d.maxSections.toNat ≤ d.size) (template : SectionHeader)
    (threshold : Option UInt32) : d.add template threshold = .error (.capacity (d.size + 1) d.maxSections) := if_pos h

theorem add_of_lt (h : d.size < d.maxSections.toNat) (template : SectionHeader)
    (threshold : Option UInt32) :
    d.add template threshold =
      .ok (d.size, { d with entries := d.entries ++ [.fresh template threshold] }) :=
  if_neg (Nat.not_le.2 h)

theorem entry_of_lt (hi : i < d.size) : d.entry i = .ok d.entries[i] := by
  rw [entry, List.getElem?_eq_getElem hi]

theorem entry_of_le (hi : d.size ≤ i) : d.entry i = .error (.unknownSection i) := by
  rw [entry, List.getElem?_eq_none hi]

theorem remove_of_lt (hi : i < d.size) :
    d.remove i = .ok (d.entries[i].header, { d with entries := d.entries.eraseIdx i }) := by
  rw [remove, entry_of_lt hi]

theorem remove_of_le (hi : d.size ≤ i) : d.remove i = .error (.unknownSection i) := by
  rw [remove, entry_of_le hi]

/-- A change does to the entries what it does to a plain list. -/
theorem change_eq (d : Directory) (c : Change) :
    d.change c = { d with entries := c.onList d.maxSections.toNat .fresh d.entries } := by
  cases c with
  | add template threshold =>
    by_cases hroom : d.size < d.maxSections.toNat
    · have hplain : d.entries.length < d.maxSections.toNat := hroom
      simp only [change, add_of_lt hroom, Change.onList, if_pos hplain]
    · have hplain : ¬ d.entries.length < d.maxSections.toNat := hroom
      simp only [change, add_of_le (Nat.not_lt.1 hroom), Change.onList, if_neg hplain]
  | remove i =>
    by_cases hi : i < d.size
    · simp only [change, remove_of_lt hi, Change.onList]
    · have hplain := List.eraseIdx_of_length_le (l := d.entries) (Nat.not_lt.1 hi)
      simp only [change, remove_of_le (Nat.not_lt.1 hi), Change.onList, hplain]

theorem extended_append (d : Directory) (template : SectionHeader) (threshold : Option UInt32) :
    d.Extended template threshold
      { d with entries := d.entries ++ [.fresh template threshold] } where
  maxSections := rfl
  size := List.length_append
  before := fun _ hj => List.getElem?_append_left hj
  last := ⟨.fresh template threshold, {}, List.getElem?_concat_length, rfl, rfl, rfl, rfl, rfl, rfl,
    rfl⟩

theorem shortened_eraseIdx (hi : i < d.size) :
    d.Shortened i { d with entries := d.entries.eraseIdx i } where
  maxSections := rfl
  size := List.length_eraseIdx_add_one hi
  before := fun _ hj => List.getElem?_eraseIdx_of_lt hj
  behind := fun _ hj => List.getElem?_eraseIdx_of_ge hj

theorem findType?_eq_some_iff {ty : UInt8} :
    d.findType? ty = some i ↔
      (∃ h, d.headers[i]? = some h ∧ h.ty = ty) ∧
        ∀ j < i, ∀ h, d.headers[j]? = some h → h.ty ≠ ty := by
  rw [findType?, List.findIdx?_eq_some_iff_getElem]
  constructor
  · rintro ⟨hi, hty, hbefore⟩
    refine ⟨⟨d.headers[i], List.getElem?_eq_getElem hi, by simpa using hty⟩, ?_⟩
    intro j hj h hh
    rw [List.getElem?_eq_getElem (Nat.lt_trans hj hi), Option.some.injEq] at hh
    subst hh
    simpa using hbefore j hj
  · rintro ⟨⟨h, hh, hty⟩, hbefore⟩
    obtain ⟨hi, rfl⟩ := List.getElem?_eq_some_iff.1 hh
    refine ⟨hi, by simpa using hty, fun j hj => ?_⟩
    simpa using hbefore j hj _ (List.getElem?_eq_getElem (Nat.lt_trans hj hi))

theorem findType?_eq_none_iff {ty : UInt8} :
    d.findType? ty = none ↔ ∀ h ∈ d.headers, h.ty ≠ ty := by
  simp [findType?]

/-- A directory that is not over its limit answers as a list. -/
theorem answersAsList (hlimit : d.maxSections = maxSections) (hbound : d.size ≤ maxSections.toNat) :
    AnswersAsList maxSections d := by
  subst hlimit
  constructor
  · exact hbound
  · intro template threshold hfull
    have hadd := add_of_le (Nat.le_of_eq hfull.symm) template threshold
    exact ⟨hadd, by rw [change, hadd]⟩
  · intro template threshold hroom
    have hadd := add_of_lt hroom template threshold
    exact ⟨_, hadd, d.extended_append template threshold, by rw [change, hadd]⟩
  · intro i hi
    have hremove := remove_of_le hi
    exact ⟨hremove, entry_of_le hi, by rw [header, entry_of_le hi]; rfl, by rw [change, hremove]⟩
  · intro i hi
    have hremove := remove_of_lt hi
    exact ⟨d.entries[i], _, List.getElem?_eq_getElem hi, entry_of_lt hi,
      by rw [header, entry_of_lt hi]; rfl, hremove, shortened_eraseIdx hi, by rw [change, hremove]⟩
  · exact fun ty i => findType?_eq_some_iff
  · exact fun ty => findType?_eq_none_iff

/-! ### All changes -/

def onListAll {α : Type} (limit : Nat) (make : SectionHeader → Option UInt32 → α)
    (changes : List Change) (l : List α) : List α :=
  changes.foldl (fun l c => c.onList limit make l) l

theorem length_onListAll_le {α : Type} {limit : Nat} {make : SectionHeader → Option UInt32 → α}
    (changes : List Change) {l : List α} (h : l.length ≤ limit) :
    (onListAll limit make changes l).length ≤ limit := by
  induction changes generalizing l with
  | nil => exact h
  | cons c rest ih => exact ih (c.length_onList_le h)

theorem map_onListAll {α β : Type} {limit : Nat} {make : SectionHeader → Option UInt32 → α}
    (f : α → β) (changes : List Change) (l : List α) :
    (onListAll limit make changes l).map f =
      onListAll limit (fun t n => f (make t n)) changes (l.map f) := by
  induction changes generalizing l with
  | nil => rfl
  | cons c rest ih =>
    rw [onListAll, List.foldl_cons, ← onListAll, ih, Change.map_onList]
    rfl

theorem changeAll_eq (d : Directory) (changes : List Change) :
    d.changeAll changes =
      { d with entries := onListAll d.maxSections.toNat .fresh changes d.entries } := by
  induction changes generalizing d with
  | nil => rfl
  | cons c rest ih =>
    rw [changeAll, List.foldl_cons, ← changeAll, ih, change_eq]
    rfl

theorem Started.maxSections_eq (h : Started maxSections d) : d.maxSections = maxSections := by
  cases h with
  | new => rfl
  | loaded h =>
    obtain ⟨-, -, rfl, -⟩ := Opening.load_eq_ok_iff.1 h
    rfl

theorem Started.size_le (h : Started maxSections d) : d.size ≤ maxSections.toNat := by
  cases h with
  | new => exact Nat.zero_le _
  | loaded h =>
    obtain ⟨hcount, -, rfl, -⟩ := Opening.load_eq_ok_iff.1 h
    rw [size, List.length_map, SectionHeader.firstOf, List.length_map, List.length_range]
    exact UInt32.not_lt.1 hcount

/-- After any changes, refused ones among them, to a new directory or one that was read: there are
never more entries than it has room for, its headers are those of the list that the same changes
lead to, and it answers as that list does. -/
theorem is_bounded_list (h : Started maxSections d) (changes : List Change) :
    (d.changeAll changes).maxSections = maxSections ∧
      (d.changeAll changes).headers =
        onListAll maxSections.toNat newHeader changes d.headers ∧
      AnswersAsList maxSections (d.changeAll changes) := by
  have hlimit := h.maxSections_eq
  have hsize : (onListAll d.maxSections.toNat Entry.fresh changes d.entries).length ≤
      maxSections.toNat := by
    rw [hlimit]
    exact length_onListAll_le changes h.size_le
  rw [changeAll_eq]
  refine ⟨hlimit, ?_, answersAsList hlimit hsize⟩
  rw [headers, map_onListAll, hlimit]
  rfl

/-- For one, a directory that was read and is full: a section is refused, another index is unknown,
and when the first section has gone there is room for a new one. -/
theorem is_bounded_list_of_one_section :
    let bs := SectionHeader.encode { pointer := 64, ty := 7 }
    let changes : List Change := [.add { ty := 1 } none, .remove 3, .remove 0,
      .add { pointer := 9, ty := 2, flags := 0x4 } (some 16)]
    ∃ d, load bs 1 1 = .ok (d, []) ∧ Started 1 d ∧ (d.changeAll changes).maxSections = 1 ∧
      (d.changeAll changes).headers = [{ ty := 2, flags := 0x4 }] ∧
      AnswersAsList 1 (d.changeAll changes) := by
  intro bs changes
  have hload : load bs 1 1 =
      .ok ({ entries := [.ofStored { pointer := 64, ty := 7 }], maxSections := 1 }, []) := rfl
  have hstarted := Started.loaded hload
  obtain ⟨hlimit, hheaders, hanswers⟩ := is_bounded_list hstarted changes
  exact ⟨_, hload, hstarted, hlimit, hheaders.trans rfl, hanswers⟩

end Directory

end SectionArchive
