import Mathlib
import SectionArchive.Proofs.Evolution
/-!
Clean payloads. A payload in memory that carries no mark of an edit can be dropped and loaded again,
so it must be what its header attests: it was verified when it was loaded, or the header was made
from it when it was saved. This holds whatever happens to the container and to the bytes under it,
because neither a failed load nor a failed save takes a mark away.
-/

namespace SectionArchive

/-- The payload has the size that the header states, and the checksum too unless there is none. -/
def SectionHeader.Attests (h : SectionHeader) (raw : Bytes) : Prop :=
  raw.length = h.size.toNat ∧
    ∃ kind, Flags.checksum? h.flags = some kind ∧
      (kind ≠ .none → Checksum.checksum kind raw = h.checksum)

/-- What storage holds for a header was verified against it. -/
theorem Section.Holds.attests {content : Bytes} {h : SectionHeader} {raw : Bytes}
    (hholds : Section.Holds content h raw) : h.Attests raw := by
  obtain ⟨hflags, hraw, hsum⟩ := Section.decode_eq_ok_iff.1 (hholds.decode_place 0).2
  obtain ⟨hlength, -⟩ := Codec.unpack_of_decompress hraw Source.defaultSlice
  refine ⟨hlength, Flags.kind h.flags, Flags.checksum?_of_valid hflags, ?_⟩
  intro hkind
  exact (hsum.resolve_left hkind).symm

/-- The header of a packed payload is made from the payload. -/
theorem Section.Piece.attests_header {p : Section.Piece} (hfits : p.Fits) (offset : Nat) :
    (p.header offset).Attests p.raw := by
  constructor
  · simp only [Section.Piece.header, UInt32.toNat_ofNat', Nat.mod_eq_of_lt hfits.raw]
  · exact ⟨Flags.kind p.flags, Flags.checksum?_of_valid hfits.flags, fun _ => rfl⟩

namespace Entry

/-- What is in memory and not marked as edited is what the header attests or, for a section that was
never saved, nothing; and only what was saved is not in memory. -/
structure Verified (e : Entry) : Prop where
  clean : ∀ p, e.payload = some p → p.dirty = false → e.persisted = true → e.header.Attests p.bytes
  empty : e.persisted = false → e.isDirty = false → ∃ p, e.payload = some p ∧ p.bytes = []
  blank : e.persisted = false → e.header.pointer = 0 ∧ e.header.csize = 0 ∧ e.header.size = 0 ∧
    e.header.checksum = 0
  unloaded : e.payload = none → e.persisted = true

namespace Verified

variable {content : Bytes} {e e' : Entry}

theorem fresh (o : SectionOptions) : (Entry.fresh o.header o.threshold).Verified where
  clean := by
    intro p _ _ hpersisted
    cases hpersisted
  empty := fun _ _ => ⟨{}, rfl, rfl⟩
  blank := fun _ => ⟨rfl, rfl, rfl, rfl⟩
  unloaded := by
    intro hnone
    cases hnone

theorem stored (h : SectionHeader) : (Entry.ofStored h).Verified where
  clean := by
    intro p hp
    cases hp
  empty := by
    intro hpersisted
    cases hpersisted
  blank := by
    intro hpersisted
    cases hpersisted
  unloaded := fun _ => rfl

/-- A payload takes the place of the one in memory; without a mark it must be one that was there. -/
theorem put (h : e.Verified) {q : Payload}
    (hclean : q.dirty = false → ∃ p, e.payload = some p ∧ p.dirty = false ∧ q.bytes = p.bytes) :
    ({ e with payload := some q } : Entry).Verified where
  clean := by
    intro p hp hdirty hpersisted
    obtain rfl : q = p := Option.some.inj hp
    obtain ⟨p, hpayload, hdirty', hbytes⟩ := hclean hdirty
    rw [hbytes]
    exact h.clean p hpayload hdirty' hpersisted
  empty := by
    intro hpersisted hdirty
    obtain ⟨p, hpayload, hdirty', hbytes⟩ := hclean hdirty
    have hwas : e.isDirty = false := by
      rw [isDirty, hpayload, Option.any_some, hdirty']
    obtain ⟨p', hpayload', hempty⟩ := h.empty hpersisted hwas
    obtain rfl : p = p' := Option.some.inj (hpayload.symm.trans hpayload')
    exact ⟨q, rfl, hbytes.trans hempty⟩
  blank := h.blank
  unloaded := by
    intro hnone
    cases hnone

/-- What is loaded was verified. -/
theorem fetched (h : e.Verified) (hfetched : e.Fetched content e') : e'.Verified := by
  cases hfetched with
  | same => exact h
  | @loaded raw hnone hholds =>
    have hpersisted := h.unloaded hnone
    constructor
    · intro p hp _ _
      obtain rfl : Payload.ofLoaded raw = p := Option.some.inj hp
      exact hholds.attests
    · intro hunsaved
      rw [hpersisted] at hunsaved
      cases hunsaved
    · exact h.blank
    · intro _
      exact hpersisted

/-- A dropped payload is on storage, or there was never anything to lose. -/
theorem dropped (h : e.Verified) :
    ({ e with payload := if e.persisted then none else some {} } : Entry).Verified := by
  cases hpersisted : e.persisted with
  | true =>
    constructor
    · intro p hp
      cases hp
    · intro hunsaved
      cases hunsaved
    · intro hunsaved
      cases hunsaved
    · intro _
      rfl
  | false =>
    constructor
    · intro p _ _ hsaved
      cases hsaved
    · intro _ _
      exact ⟨{}, rfl, rfl⟩
    · intro _
      exact h.blank hpersisted
    · intro hnone
      cases hnone

theorem touched (h : e.Verified) (htouched : e.Touched (fun p => p.dirty = true) content e') :
    e'.Verified := by
  cases htouched with
  | exchanged hmarked =>
    apply h.put
    intro hdirty
    rw [hmarked] at hdirty
    cases hdirty
  | fetched hfetched => exact h.fetched hfetched
  | unloaded => exact h.dropped
  | written data =>
    apply h.put
    intro hdirty
    cases hdirty
  | @edited p hp d =>
    apply h.put
    intro hdirty
    obtain ⟨hdirty', hbytes⟩ := Edit.bytes_apply_of_clean hdirty
    exact ⟨p, hp, hdirty', hbytes⟩

/-- A saved section has a header that was made from its payload. -/
theorem resealed {length : Nat} (h : e.Resealed length e') : e'.Verified := by
  obtain ⟨hfits, hraw, -, -⟩ := h
  constructor
  · intro p hp _ _
    obtain rfl := Option.some.inj hp
    have hattests := Section.Piece.attests_header hfits
    rw [hraw] at hattests
    exact hattests _
  · intro hunsaved
    cases hunsaved
  · intro hunsaved
    cases hunsaved
  · intro _
    rfl

end Verified

end Entry

namespace Container

variable {allowed : Storage → Prop} {maxSections : UInt32} {c : Container}

/-- Whatever happened to a container and to the storage under it, no payload counts as clean that is
not what its header attests. Payloads may even be exchanged for others, if these are marked as
edited. -/
theorem clean_payloads_are_verified (h : Evolved (fun p => p.dirty = true) allowed maxSections c) :
    ∀ e ∈ c.directory.entries, e.Verified := by
  apply h.forall_entries (P := fun _ e => e.Verified)
  · intro _ o
    exact .fresh o
  · intro _ _ _ _ t _
    exact .stored t
  · intro _ _ e e' hverified htouched
    exact hverified.touched htouched
  · intro _ _ e e' _ _ hresealed
    exact .resealed hresealed

/-- For one, a payload whose first save was refused, and whose second save, on other storage, was
not: it counts as clean. -/
theorem clean_payloads_are_verified_behind_a_retry :
    let c := after (perform (.write 0 [7, 8]) (after (perform (.add { checksum := .weak })
      (create { content := [1, 2, 3], refuses := Storage.refusing (some .flush) } {}))))
    let d : Container := { after (perform .save c) with storage := { content := [9] } }
    let d' := after (perform .save d)
    Evolved (fun p => p.dirty = true) (fun _ => True) defaultMaxSections d' ∧
      d'.isModified = false ∧
      (∃ e, d'.directory.entries = [e] ∧ e.persisted = true ∧ ∃ p, e.payload = some p ∧
        p.bytes = [7, 8]) ∧
      ∀ e ∈ d'.directory.entries, e.Verified := by
  intro c d d'
  have hc : Evolved (fun p => p.dirty = true) (fun _ => True) defaultMaxSections c := by
    apply Evolved.changed _ (.perform (.write 0 [7, 8])) trivial
    apply Evolved.changed _ (.perform (.add { checksum := .weak })) trivial
    exact .created rfl
  have hd' : Evolved (fun p => p.dirty = true) (fun _ => True) defaultMaxSections d' := by
    apply Evolved.changed _ (.perform .save) trivial
    apply Evolved.changed _ (.outside _) trivial
    exact .changed hc (.perform .save) trivial
  have hflags : ∀ e ∈ c.directory.entries, Flags.Valid e.requestedFlags := by
    intro e he
    obtain rfl := List.mem_singleton.1 he
    exact Flags.valid_select none .weak
  have hpacks : List.Forall₂ Entry.Packs c.directory.entries [⟨0, 0x8, [7, 8]⟩] :=
    .cons ⟨_, rfl, rfl⟩ .nil
  obtain ⟨sections, hsections, hpieces⟩ := encodeFrom_of_packs hpacks hflags 0
  obtain ⟨s, hfirst⟩ : ∃ s, save c = .error (.io (.refused .flush)) { c with storage := s } := by
    have hloaded : loadAll (List.range c.directory.size) c = .ok () c := rfl
    rw [save_eq, if_neg (by decide), hloaded]
    simp only [hsections]
    exact ⟨_, rfl⟩
  have hd : d = { c with storage := { content := [9] } } := by
    have hafter : after (perform .save c) = { c with storage := s } := by
      rw [perform, hfirst, after]
    simp only [d, hafter]
  obtain ⟨s', hsecond⟩ : ∃ s, save d = .ok () (commit (imageOf 0 2 c.header.typeExt
      [⟨0, 0x8, [7, 8]⟩]) { c with storage := s }) := by
    have hloaded : loadAll (List.range d.directory.size) d = .ok () d := by
      rw [hd]
      rfl
    have hmagic : c.header.signature = MainHeader.magic := rfl
    have hfree : Storage.FaultFree { content := [9] } := fun _ => rfl
    rw [save_eq, if_neg (by rw [hd]; decide), hloaded, hd]
    simp only [hsections, Storage.store_eq hfree.obliging, ofSections_eq_imageOf hmagic hpieces]
    exact ⟨_, rfl⟩
  have hafter : d' = commit (imageOf 0 2 c.header.typeExt [⟨0, 0x8, [7, 8]⟩])
      { c with storage := s' } := by
    simp only [d', perform, hsecond, after]
  refine ⟨hd', ?_, ?_, clean_payloads_are_verified hd'⟩
  · rw [hafter]
    exact isModified_commit _ _
  · rw [hafter]
    exact ⟨_, rfl, rfl, _, rfl, rfl⟩

end Container

end SectionArchive
