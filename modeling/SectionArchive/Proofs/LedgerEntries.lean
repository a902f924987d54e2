import Mathlib
import SectionArchive.Proofs.Ledger
/-!
Sections and their ledger. Four things are hidden in each section: the place its header names,
whether its payload is in memory, whether that was edited, and whether the header means anything.
One relation ties them to the ledger's entry, and everything that is done to one section keeps it.
-/

namespace SectionArchive

namespace Edit

/-- What an edit does to bytes and cursor does not depend on the mark. -/
theorem apply_eq {p q : Payload} (hbytes : p.bytes = q.bytes) (hposition : p.position = q.position)
    (e : Edit) :
    (e.apply p).bytes = (e.apply q).bytes ∧ (e.apply p).position = (e.apply q).position := by
  obtain ⟨bytes, position, dirty⟩ := p
  obtain ⟨bytes', position', dirty'⟩ := q
  obtain rfl : bytes = bytes' := hbytes
  obtain rfl : position = position' := hposition
  cases e with
  | writeAll data =>
    simp only [apply, Payload.writeAll]
    split <;> exact ⟨rfl, rfl⟩
  | seek whence =>
    have htarget : Payload.target ⟨bytes, position, dirty⟩ whence =
        Payload.target ⟨bytes, position, dirty'⟩ whence := by cases whence <;> rfl
    simp only [apply, Payload.seek, htarget]
    by_cases hrange : 0 ≤ Payload.target ⟨bytes, position, dirty'⟩ whence ∧
        Payload.target ⟨bytes, position, dirty'⟩ whence < UInt64.size
    · rw [if_pos hrange, if_pos hrange]
      exact ⟨rfl, rfl⟩
    · rw [if_neg hrange, if_neg hrange]
      exact ⟨rfl, rfl⟩
  | _ => exact ⟨rfl, rfl⟩

/-- An edit that leaves no mark leaves the bytes. -/
theorem bytes_apply_of_clean {p : Payload} {e : Edit} (h : (e.apply p).dirty = false) :
    p.dirty = false ∧ (e.apply p).bytes = p.bytes := by
  cases e with
  | write data => cases h
  | replace data => cases h
  | writeAll data =>
    simp only [apply, Payload.writeAll] at h ⊢
    split at h
    · next hempty => exact ⟨h, by rw [if_pos hempty]⟩
    · cases h
  | seek whence =>
    simp only [apply, Payload.seek] at h ⊢
    split at h
    · next hrange => exact ⟨h, by rw [if_pos hrange]⟩
    · next hrange => exact ⟨h, by rw [if_neg hrange]⟩
  | _ => exact ⟨h, rfl⟩

end Edit

/-- An entry of a directory over some bytes, as the ledger keeps it. -/
structure Shows (content : Bytes) (e : Entry) (s : Item) : Prop where
  ty : e.header.ty = s.ty
  flags : e.requestedFlags = s.flags
  valid : Flags.Valid s.flags
  threshold : e.threshold = s.threshold
  persisted : e.persisted = s.saved.isSome
  /-- What was saved is where the header says. -/
  stored : ∀ raw, s.saved = some raw → Section.Stored content e.header raw ∧
    e.header.flags = Flags.effective s.flags s.threshold raw.length
  /-- A payload that is not in memory is as it was saved, and so is one that is not dirty. -/
  payload : match s.cursor with
    | none => e.payload = none ∧ s.saved = some s.current
    | some n => ∃ dirty, e.payload = some ⟨s.current, n, dirty⟩ ∧
        (dirty = false → s.current = s.saved.getD [])

namespace Shows

variable {content : Bytes} {e e' : Entry} {s : Item}

/-- A payload in memory is the current one. -/
theorem payload_eq (h : Shows content e s) {q : Payload} (hq : e.payload = some q) :
    s.cursor = some q.position ∧ q.bytes = s.current ∧
      (q.dirty = false → s.current = s.saved.getD []) := by
  have hpayload := h.payload
  cases hcursor : s.cursor with
  | none =>
    simp only [hcursor, hq] at hpayload
    cases hpayload.1
  | some n =>
    simp only [hcursor] at hpayload
    obtain ⟨dirty, hsome, hclean⟩ := hpayload
    rw [hq, Option.some.injEq] at hsome
    subst hsome
    exact ⟨rfl, rfl, hclean⟩

/-- A payload that is not in memory is on storage. -/
theorem stored_current (h : Shows content e s) (hnone : e.payload = none) :
    s.cursor = none ∧ s.saved = some s.current ∧ Section.Stored content e.header s.current := by
  have hpayload := h.payload
  cases hcursor : s.cursor with
  | none =>
    simp only [hcursor] at hpayload
    exact ⟨rfl, hpayload.2, (h.stored _ hpayload.2).1⟩
  | some n =>
    simp only [hcursor, hnone] at hpayload
    obtain ⟨dirty, hsome, -⟩ := hpayload
    cases hsome

theorem cursor_isSome (h : Shows content e s) : s.cursor.isSome = e.payload.isSome := by
  cases hpayload : e.payload with
  | none => rw [(h.stored_current hpayload).1]; rfl
  | some q => rw [(h.payload_eq hpayload).1]; rfl

theorem savedAs (h : Shows content e s) : e.SavedAs content s.piece := by
  refine ⟨h.ty.symm, by rw [h.flags, h.threshold]; rfl, ?_⟩
  cases hpayload : e.payload with
  | none => exact (h.stored_current hpayload).2.2.2
  | some q => exact (h.payload_eq hpayload).2.1.symm

/-- Loading brings the current payload into memory. -/
theorem fetched (h : Shows content e s) (hfetched : e.Fetched content e')
    (hloaded : ∃ q, e'.payload = some q) : Shows content e' s.fetched := by
  obtain ⟨q, hq⟩ := hloaded
  cases hfetched with
  | same =>
    have hsame : s.fetched = s := by
      rw [Item.fetched, (h.payload_eq hq).1, Option.getD_some, ← (h.payload_eq hq).1]
    rwa [hsame]
  | @loaded raw hnone hholds =>
    obtain ⟨hcursor, hsaved, -, hholds'⟩ := h.stored_current hnone
    obtain rfl : s.current = raw := hholds'.unique hholds
    refine ⟨h.ty, h.flags, h.valid, h.threshold, h.persisted, h.stored, ?_⟩
    simp only [Item.fetched, hcursor, Option.getD_none]
    exact ⟨false, rfl, fun _ => by rw [hsaved, Option.getD_some]⟩

/-- Any payload may be put in the place of the one in memory, if it is marked. -/
theorem put (h : Shows content e s) {p : Payload}
    (hclean : p.dirty = false → p.bytes = s.saved.getD []) :
    Shows content { e with payload := some p }
      { s with current := p.bytes, cursor := some p.position } :=
  ⟨h.ty, h.flags, h.valid, h.threshold, h.persisted, h.stored, p.dirty, rfl, hclean⟩

/-- The payload in memory is edited. -/
theorem edited (h : Shows content e s) {q : Payload} (hq : e.payload = some q) (d : Edit) :
    Shows content { e with payload := some (d.apply q) } (s.edited d) := by
  obtain ⟨hcursor, hbytes, hclean⟩ := h.payload_eq hq
  obtain ⟨hbytes', hposition'⟩ :=
    d.apply_eq (p := q) (q := { bytes := s.current, position := q.position }) hbytes rfl
  simp only [Item.edited, hcursor, ← hbytes', ← hposition']
  refine h.put fun hdirty => ?_
  obtain ⟨hdirty', hsame⟩ := Edit.bytes_apply_of_clean hdirty
  rw [hsame, hbytes, hclean hdirty']

/-- Unloading goes back to what was saved. -/
theorem reverted (h : Shows content e s) :
    Shows content { e with payload := if e.persisted then none else some {} } s.reverted := by
  refine ⟨h.ty, h.flags, h.valid, h.threshold, h.persisted, h.stored, ?_⟩
  have hpersisted := h.persisted
  simp only [Item.reverted]
  cases hsaved : s.saved with
  | none =>
    rw [hsaved] at hpersisted
    simp only [hpersisted, Option.isSome_none, Bool.false_eq_true, if_false, Option.getD_none]
    exact ⟨false, rfl, fun _ => trivial⟩
  | some raw =>
    rw [hsaved] at hpersisted
    simp only [hpersisted, Option.isSome_some, if_true, Option.getD_some]
    exact ⟨trivial, trivial⟩

/-- A section that was saved and not edited since is found again by its header. -/
theorem reopened (h : Shows content e s) (hpersisted : e.persisted = true)
    (hclean : e.isDirty = false) :
    Shows content (Entry.ofStored e.header) s.reopened := by
  obtain ⟨raw, hsaved⟩ := Option.isSome_iff_exists.1 (h.persisted.symm.trans hpersisted)
  have hcurrent : s.current = raw := by
    cases hpayload : e.payload with
    | none =>
      have hsaved' := (h.stored_current hpayload).2.1
      rw [hsaved, Option.some.injEq] at hsaved'
      exact hsaved'.symm
    | some q =>
      simp only [Entry.isDirty, hpayload, Option.any_some] at hclean
      rw [(h.payload_eq hpayload).2.2 hclean, hsaved, Option.getD_some]
  obtain ⟨hstored, hflags⟩ := h.stored raw hsaved
  rw [← hcurrent] at hstored hflags
  refine ⟨h.ty, hflags, Flags.valid_effective h.valid _ _, rfl, rfl, ?_, rfl, rfl⟩
  intro raw' hraw'
  obtain rfl : s.current = raw' := Option.some.inj hraw'
  exact ⟨hstored, hflags⟩

/-- A loaded section that was saved is where its new header says. -/
theorem settled (h : Shows content e s) {q : Payload} (hq : e.payload = some q) {after : Bytes}
    {t : SectionHeader} (ht : Container.Places after t s.piece) :
    Shows after (Container.settle e t) s.settled := by
  obtain ⟨hcursor, hbytes, -⟩ := h.payload_eq hq
  refine ⟨ht.ty, h.flags, h.valid, h.threshold, rfl, fun raw hraw => ?_, false, ?_, fun _ => rfl⟩
  · obtain rfl : s.current = raw := Option.some.inj hraw
    exact ⟨ht.stored, ht.flags⟩
  · simp only [Container.settle, hq, Option.map_some, Payload.markClean, hcursor, Option.getD_some,
      Item.settled, Item.fetched, hbytes]

end Shows

end SectionArchive
