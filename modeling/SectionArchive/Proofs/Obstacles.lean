import Mathlib
import SectionArchive.Proofs.Evolution
/-!
What can stand in the way of a save. Whatever happened to a container, its directory passes the
check that opening makes, and the flags of its sections select something. So a save never fails for
what the container itself holds: the version is unknown, a section cannot be read or is too long, or
the storage refuses something.
-/

namespace SectionArchive

open Section (Piece)

/-- The error says that a directory contradicts itself or its limit, or that a section is not where
the container's own operations expect it. -/
def Error.IsInternal : Error → Prop
  | .badFlags .. | .sectionNotLoaded _ | .capacity .. | .sectionBounds .. | .unknownSection _ => True
  | _ => False

/-- Flags that select something are no cause for a section to be unreadable. -/
theorem Section.not_isInternal_of_contained {index : Nat} {content : Bytes} {h : SectionHeader}
    {err : Error} (hflags : Flags.Valid h.flags) (herr : contained index content h = .error err) :
    ¬ err.IsInternal := by
  unfold contained at herr
  split at herr
  · cases herr
    exact id
  · unfold decode check at herr
    simp only [SectionHeader.selection_of_valid hflags, bind, Except.bind] at herr
    split at herr
    · next e _ =>
      cases herr
      cases e <;> exact id
    · split at herr
      · next hsum =>
        split at hsum
        · cases hsum
          cases herr
          exact id
        · cases hsum
      · cases herr

/-! ### Sound entries -/

namespace Entry

/-- The flags asked for select something, those in the header are the same up to cleared packing,
and the header can stand in a container of `fileSize` bytes. -/
structure Sound (fileSize : UInt64) (e : Entry) : Prop where
  requested : Flags.Valid e.requestedFlags
  effective : e.header.flags = e.requestedFlags ∨ e.header.flags = Flags.stored e.requestedFlags
  unrefused : ∀ index, Opening.refusal? fileSize index e.header = none

variable {foreign : Payload → Prop} {fileSize : UInt64} {content : Bytes} {e e' : Entry}

theorem Touched.same_header (h : e.Touched foreign content e') :
    e'.header = e.header ∧ e'.requestedFlags = e.requestedFlags := by
  cases h with
  | fetched hfetched => exact ⟨hfetched.same_marks.1, hfetched.same_marks.2.1⟩
  | edited _ d => exact ⟨rfl, rfl⟩
  | exchanged _ => exact ⟨rfl, rfl⟩
  | written data => exact ⟨rfl, rfl⟩
  | unloaded => exact ⟨rfl, rfl⟩

namespace Sound

theorem fresh (fileSize : UInt64) (o : SectionOptions) :
    (Entry.fresh o.header o.threshold).Sound fileSize where
  requested := Flags.valid_select o.packing o.checksum
  effective := .inl rfl
  unrefused := by
    intro index
    have hpacking := (Flags.packing?_eq_none_iff o.flags).not.1 (by
      rw [SectionOptions.flags, Flags.packing?_select]
      nofun)
    have hkind := (Flags.checksum?_eq_none_iff o.flags).not.1 (by
      rw [SectionOptions.flags, Flags.checksum?_select]
      nofun)
    have hflags : (Entry.fresh o.header o.threshold).header.flags = o.flags := rfl
    have hsizes : (Entry.fresh o.header o.threshold).header.csize =
        (Entry.fresh o.header o.threshold).header.size := rfl
    have hpointer : (Entry.fresh o.header o.threshold).header.pointer.toNat = 0 := rfl
    have hcsize : (Entry.fresh o.header o.threshold).header.csize.toNat = 0 := rfl
    unfold Opening.refusal?
    rw [hflags, hpointer, hcsize, if_neg (by tauto), if_neg (by omega)]

theorem stored {h : SectionHeader} (hh : Opening.refusal? fileSize 0 h = none) :
    (Entry.ofStored h).Sound fileSize where
  requested := Opening.valid_of_refusal? hh
  effective := .inl rfl
  unrefused := Opening.refusal?_index hh

theorem touched (h : e.Sound fileSize) (htouched : e.Touched foreign content e') : e'.Sound fileSize := by
  obtain ⟨hheader, hflags⟩ := htouched.same_header
  constructor
  · rw [hflags]
    exact h.requested
  · rw [hheader, hflags]
    exact h.effective
  · rw [hheader]
    exact h.unrefused

theorem resealed {length : Nat} (h : e.Sound fileSize) (hresealed : e.Resealed length e')
    (hlength : length < UInt64.size) : e'.Sound (.ofNat length) := by
  obtain ⟨hfits, -, hflags, hplace⟩ := hresealed
  constructor
  · exact h.requested
  · simp only [Piece.header, hflags, Flags.effective]
    split
    · exact .inr rfl
    · exact .inl rfl
  · intro index
    apply Container.refusal?_header hfits
    rw [UInt64.toNat_ofNat', Nat.mod_eq_of_lt hlength]
    exact hplace

theorem valid (h : e.Sound fileSize) : Flags.Valid e.header.flags :=
  Opening.valid_of_refusal? (h.unrefused 0)

end Sound

end Entry

namespace Container

variable {foreign : Payload → Prop} {c d : Container} {maxSections : UInt32} {err : Error}
  {faults : Faults}

def Addressable (s : Storage) : Prop := s.content.length < UInt64.size

theorem Evolved.sound (h : Evolved foreign Addressable maxSections c) :
    ∀ e ∈ c.directory.entries, e.Sound c.header.fileSize := by
  apply h.forall_entries (P := fun n e => e.Sound n)
  · exact fun n o => .fresh n o
  · intro bs header headers hverdict t ht
    exact .stored (Opening.unrefused_of_verdict hverdict ht 0)
  · intro _ _ e e' hsound htouched
    exact hsound.touched htouched
  · intro s _ e e' hs hsound hresealed
    exact hsound.resealed hresealed hs

/-- What passes entry by entry passes the check that opening makes. -/
theorem validate_of_sound (h : ∀ e ∈ c.directory.entries, e.Sound c.header.fileSize) :
    c.directory.validate c.header.fileSize = .ok () := by
  have hnone : (c.directory.headers.zipIdx 0).findSome?
      (fun p => Opening.refusal? c.header.fileSize p.2 p.1) = none := by
    rw [List.findSome?_eq_none_iff]
    rintro ⟨header, i⟩ hp
    have hheader := List.mem_of_getElem? (List.mk_mem_zipIdx_iff_getElem?.1 hp)
    obtain ⟨e, he, rfl⟩ := List.mem_map.1 hheader
    exact (h e he).unrefused i
  unfold Directory.validate
  rw [Opening.checkFrom_eq, hnone]

/-! ### Obstacles -/

/-- What stands in the way of a save, and the error that it fails with: the version, a section that
is neither in memory nor in its place, one that is too long, or a refusal of the storage. -/
inductive Obstacle (faults : Faults) (c : Container) : Error → Prop
  | version (h : MainHeader.isKnownVersion c.header.version = false) :
      Obstacle faults c (.badVersion c.header.version)
  | unreadable {i : Nat} {e : Entry} {err : Error} (hi : c.directory.entries[i]? = some e)
      (hnone : e.payload = none)
      (h : Section.contained i c.storage.content e.header = .error err) : Obstacle faults c err
  | tooLong {i : Nat} {e : Entry} {p : Piece} {err : Error}
      (hi : c.directory.entries[i]? = some e) (hp : e.SavedAs c.storage.content p)
      (h : tooLong? i p = some err) : Obstacle faults c err
  | refused {i : Nat} {op : StorageOp} {f : Fault} (hi : i ≤ c.directory.size)
      (h : faults i op = some f) : Obstacle faults c (.io f)

/-- What was in the way behind some loads was there before. -/
theorem Obstacle.of_kept (h : Obstacle faults d err) (hkept : Kept c.storage.content c d)
    (hcontent : d.storage.content = c.storage.content) : Obstacle faults c err := by
  cases h with
  | version h =>
    rw [hkept.header] at h ⊢
    exact .version h
  | @unreadable i e' err hi hnone h =>
    rw [hcontent] at h
    obtain ⟨e, he, hfetched⟩ := exists_getElem?_of_forall₂ hkept.entries hi
    cases hfetched with
    | same => exact .unreadable he hnone h
    | loaded => cases hnone
  | @tooLong i e' p err hi hp h =>
    rw [hcontent] at hp
    obtain ⟨e, he, hfetched⟩ := exists_getElem?_of_forall₂ hkept.entries hi
    refine .tooLong he ?_ h
    cases hfetched with
    | same => exact hp
    | @loaded raw hnone hholds =>
      refine ⟨hp.ty, hp.flags, ?_⟩
      have hraw : p.raw = raw := hp.raw
      simp only [hnone, hraw]
      exact hholds
  | refused hi h =>
    rw [hkept.size] at hi
    exact .refused hi h

/-- Loading sections under refusals fails only for an obstacle. -/
theorem obstacle_of_loadAllUnder {indices : List Nat} (hall : ∀ i ∈ indices, i < c.directory.size)
    (h : loadAllUnder faults indices c = .error err d) : Obstacle faults c err := by
  induction indices generalizing c with
  | nil => cases h
  | cons i rest ih =>
    have hi := hall i (List.mem_cons_self ..)
    rw [loadAllUnder, loadAllWith_cons] at h
    rcases load_cases i (refusing faults i c) with ⟨p, c', hload, hrefreshed, -⟩ | ⟨f, c', hload, -⟩
    · rw [hload] at h
      have hkept := (kept_refusing faults i c).trans hrefreshed.toKept
      refine (ih (fun j hj => ?_) h).of_kept hkept hrefreshed.content
      rw [hkept.size]
      exact hall j (List.mem_cons_of_mem _ hj)
    · rw [hload] at h
      cases h
      rcases load_error hload with hmissing | ⟨e, he, hnone, hcontained | ⟨op, f, hf, rfl⟩⟩
      · rw [List.getElem?_eq_none_iff] at hmissing
        exact absurd hi (Nat.not_lt.2 hmissing)
      · exact .unreadable he hnone hcontained
      · exact .refused (Nat.le_of_lt hi) hf

/-- What is in memory can be packed to pieces, be they too long or not. -/
theorem AllLoaded.exists_packs (h : c.AllLoaded) :
    ∃ pieces, List.Forall₂ Entry.Packs c.directory.entries pieces := by
  refine ⟨c.directory.entries.map fun e => Section.piece (e.payload.getD {}).bytes
    { e.header with flags := e.requestedFlags } e.threshold, ?_⟩
  rw [List.forall₂_map_right_iff, List.forall₂_same]
  intro e he
  obtain ⟨q, hq⟩ := h e he
  exact ⟨q, hq, by rw [hq, Option.getD_some]⟩

/-- Packing sections that are all in memory fails only for one that is too long. -/
theorem obstacle_of_image (hloaded : c.AllLoaded)
    (hflags : ∀ e ∈ c.directory.entries, Flags.Valid e.requestedFlags)
    (h : image c = .error err) : Obstacle faults c err := by
  obtain ⟨pieces, hpacks⟩ := hloaded.exists_packs
  have hencode := encodeFrom_of_packs hpacks hflags 0
  unfold image at h
  split at hencode
  · next f hlong =>
    rw [hencode] at h
    cases h
    obtain ⟨⟨p, i⟩, hp, hlong⟩ := List.exists_of_findSome?_eq_some hlong
    have hp := List.mk_mem_zipIdx_iff_getElem?.1 hp
    obtain ⟨e, he, hpack⟩ := exists_getElem?_of_forall₂ hpacks hp
    exact .tooLong he ((Entry.Fetched.same e).savedAs hpack) hlong
  · obtain ⟨sections, hsections, -⟩ := hencode
    rw [hsections] at h
    cases h

/-- A save fails only for an obstacle. -/
theorem obstacle_of_saveUnder {c' : Container}
    (hflags : ∀ e ∈ c.directory.entries, Flags.Valid e.requestedFlags)
    (h : saveUnder faults c = .error err c') : Obstacle faults c err := by
  cases saveFails_of_saveUnder h with
  | version hversion => exact .version hversion
  | load _ _ hload => exact obstacle_of_loadAllUnder (fun i hi => List.mem_range.1 hi) hload
  | pack hkept hcontent hloaded _ himage =>
    exact (obstacle_of_image hloaded (Entry.valid_of_fetched hkept.entries hflags) himage).of_kept
      hkept hcontent
  | store _ _ _ _ hstore =>
    obtain ⟨op, hop⟩ := Storage.refuses_of_store hstore
    exact .refused (Nat.le_refl _) hop

/-- No obstacle is an internal one. -/
theorem Obstacle.not_isInternal (hflags : ∀ e ∈ c.directory.entries, Flags.Valid e.header.flags)
    (h : Obstacle faults c err) : ¬ err.IsInternal := by
  cases h with
  | version h => exact id
  | refused hi h => exact id
  | unreadable hi hnone h =>
    exact Section.not_isInternal_of_contained (hflags _ (List.mem_of_getElem? hi)) h
  | tooLong hi hp h =>
    unfold tooLong? at h
    split_ifs at h
    · cases h
      exact id
    · cases h
      exact id

/-- Whatever happened to a container over storage with 64-bit lengths, its directory passes the check
that opening makes and is within its limit; its sections' flags select something, and those in the
headers are those asked for, with packing cleared at most. So a save of it, whatever is refused at
which time, fails only for an unknown version, a section that cannot be read or is too long, or a
refusal. -/
theorem evolved_container_is_saveable (h : Evolved foreign Addressable maxSections c) :
    c.directory.validate c.header.fileSize = .ok () ∧
      c.directory.size ≤ maxSections.toNat ∧
      (∀ e ∈ c.directory.entries,
        e.requestedFlags &&& 0x3 ≠ 0x3 ∧ e.requestedFlags &&& 0xC ≠ 0xC ∧
          (e.header.flags = e.requestedFlags ∨ e.header.flags = Flags.stored e.requestedFlags)) ∧
      (∀ faults err c', saveUnder faults c = .error err c' →
        ¬ err.IsInternal ∧ Obstacle faults c err) ∧
      ∀ err c', save c = .error err c' →
        ¬ err.IsInternal ∧ Obstacle (fun _ => c.storage.refuses) c err := by
  have hsound := h.sound
  have hunder : ∀ faults err c', saveUnder faults c = .error err c' →
      ¬ err.IsInternal ∧ Obstacle faults c err := by
    intro faults err c' hsave
    have hobstacle := obstacle_of_saveUnder (fun e he => (hsound e he).requested) hsave
    exact ⟨hobstacle.not_isInternal fun e he => (hsound e he).valid, hobstacle⟩
  refine ⟨validate_of_sound hsound, ?_, ?_, hunder, ?_⟩
  · rw [← h.maxSections_eq]
    exact h.bounded.size
  · intro e he
    obtain ⟨hrequested, heffective, -⟩ := hsound e he
    rw [← (Flags.packing?_eq_none_iff _).ne, ← (Flags.checksum?_eq_none_iff _).ne]
    exact ⟨Option.isSome_iff_ne_none.1 hrequested.1, Option.isSome_iff_ne_none.1 hrequested.2,
      heffective⟩
  · intro err c' hsave
    rw [← saveUnder_refuses] at hsave
    exact hunder _ err c' hsave

/-- For one, a section that was never saved, over a storage that refuses to flush. -/
theorem evolved_container_is_saveable_but_for_a_flush :
    let c := after (perform (.write 0 [7, 8]) (after (perform
      (.add { packing := some .zlib, checksum := .weak, threshold := some 16 })
      (create { content := [1, 2, 3], refuses := Storage.refusing (some .flush) } {}))))
    ∃ c', Evolved (fun _ => True) Addressable defaultMaxSections c ∧
      save c = .error (.io (.refused .flush)) c' ∧
      c.directory.validate c.header.fileSize = .ok () ∧
      ¬ (Error.io (.refused .flush)).IsInternal ∧
      Obstacle (fun _ => c.storage.refuses) c (.io (.refused .flush)) := by
  intro c
  have hc : Evolved (fun _ => True) Addressable defaultMaxSections c := by
    have hlength : 3 < UInt64.size := by decide
    apply Evolved.changed _ (.perform (.write 0 [7, 8])) hlength
    apply Evolved.changed _ (.perform (.add _)) hlength
    exact .created rfl
  have hflags : ∀ e ∈ c.directory.entries, Flags.Valid e.requestedFlags := by
    intro e he
    obtain rfl := List.mem_singleton.1 he
    exact Flags.valid_select (some .zlib) .weak
  have hpacks : List.Forall₂ Entry.Packs c.directory.entries [⟨0, 0x8, [7, 8]⟩] :=
    .cons ⟨_, rfl, rfl⟩ .nil
  obtain ⟨sections, hsections, -⟩ := encodeFrom_of_packs hpacks hflags 0
  obtain ⟨c', hsave⟩ : ∃ c', save c = .error (.io (.refused .flush)) c' := by
    have hloaded : loadAll (List.range c.directory.size) c = .ok () c := rfl
    rw [save_eq, if_neg (by decide), hloaded]
    simp only [hsections]
    exact ⟨_, rfl⟩
  obtain ⟨hvalid, -, -, -, hfails⟩ := evolved_container_is_saveable hc
  exact ⟨c', hc, hsave, hvalid, hfails _ c' hsave⟩

end Container

end SectionArchive
