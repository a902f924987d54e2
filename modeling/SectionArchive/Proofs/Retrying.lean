import Mathlib
import SectionArchive.Proofs.FailedSaving
/-!
Saving again after saves that failed. Before the first byte on storage is written over, all payloads
are in memory; so from then on the storage may hold anything, and until then it holds what it held.
Either way a save that is not refused makes the container that the first save would have made.
-/

namespace SectionArchive

namespace Container

variable {c c' d d' : Container} {content : Bytes}

theorem allLoaded_of_image {i : Image} (h : image c = .ok i) : c.AllLoaded := by
  simp only [image, bind, Except.bind] at h
  cases hencode : encodeFrom 0 c.directory.entries with
  | error e => simp [hencode] at h
  | ok sections =>
    obtain ⟨pieces, hpacks, -⟩ := packs_of_encodeFrom hencode
    intro e he
    obtain ⟨p, -, q, hq, -⟩ := exists_mem_of_forall₂ hpacks.flip he
    exact ⟨q, hq⟩

/-- When all payloads are in memory, loading finds nothing to do. -/
theorem Kept.entries_eq (h : Kept content c d) (hloaded : c.AllLoaded) :
    d.directory.entries = c.directory.entries := by
  have hentries := h.entries
  rw [AllLoaded] at hloaded
  generalize c.directory.entries = p, d.directory.entries = q at hentries hloaded
  induction hentries with
  | nil => rfl
  | cons hfetched _ ih =>
    rw [hfetched.of_loaded (hloaded _ (List.mem_cons_self ..)),
      ih fun e he => hloaded e (List.mem_cons_of_mem _ he)]

theorem Kept.allLoaded (h : Kept content c d) (hloaded : c.AllLoaded) : d.AllLoaded := by
  intro e he
  rw [h.entries_eq hloaded] at he
  exact hloaded e he

/-- Over the same bytes all payloads can be loaded in one way only. -/
theorem Kept.directory_unique (h : Kept content c d) (h' : Kept content c d')
    (hloaded : d.AllLoaded) (hloaded' : d'.AllLoaded) : d.directory = d'.directory := by
  have hentries : d.directory.entries = d'.directory.entries := by
    have hp := h.entries
    have hp' := h'.entries
    rw [AllLoaded] at hloaded hloaded'
    generalize c.directory.entries = p, d.directory.entries = q, d'.directory.entries = q'
      at hp hp' hloaded hloaded'
    induction hp generalizing q' with
    | nil =>
      cases hp'
      rfl
    | cons hfetched _ ih =>
      cases hp' with
      | cons hfetched' hrest' =>
        rw [hfetched.unique hfetched' (hloaded _ (List.mem_cons_self ..))
          (hloaded' _ (List.mem_cons_self ..)),
          ih _ hrest' (fun e he => hloaded e (List.mem_cons_of_mem _ he))
            fun e he => hloaded' e (List.mem_cons_of_mem _ he)]
  have hlimit := h.maxSections.trans h'.maxSections.symm
  cases hd : d.directory
  cases hd' : d'.directory
  simp only [hd, hd'] at hentries hlimit
  rw [hentries, hlimit]

/-- Containers after any number of saves of `c` that failed, whatever was refused at which time. The
storage keeps its bytes when a save could not load or pack; behind that it may hold anything. -/
inductive AfterFailures (c : Container) : Container → Prop
  | none : AfterFailures c c
  | failed {d d' : Container} {e : Error} {s : Storage}
      (h : AfterFailures c d) (hfail : save d = .error e d')
      (hs : s.content = d'.storage.content ∨ ∃ i, Packs (fun _ => d.storage.refuses) d i) :
      AfterFailures c { d' with storage := s }
  | failedUnder {d d' : Container} {faults : Faults} {e : Error} {s : Storage}
      (h : AfterFailures c d) (hfail : saveUnder faults d = .error e d')
      (hs : s.content = d'.storage.content ∨ ∃ i, Packs faults d i) :
      AfterFailures c { d' with storage := s }

/-- The container describes what `c` does, and its payloads are in memory or where they were. -/
structure Retryable (c d : Container) : Prop where
  kept : Kept c.storage.content c d
  resident : d.storage.content = c.storage.content ∨ d.AllLoaded

/-- What is loaded from there is what would have been loaded in the first place. -/
theorem Retryable.through (h : Retryable c d) (hd : Kept d.storage.content d d') :
    Kept c.storage.content c d' := by
  rcases h.resident with hcontent | hloaded
  · rw [hcontent] at hd
    exact h.kept.trans hd
  · have hentries := h.kept.entries
    rw [← hd.entries_eq hloaded] at hentries
    exact ⟨hd.header.trans h.kept.header, hd.maxSections.trans h.kept.maxSections,
      hd.modified.trans h.kept.modified, hentries⟩

/-- A save that fails leaves the container such that it can be tried again. -/
theorem Retryable.failed {faults : Faults} {e : Error} {s : Storage} (h : Retryable c d)
    (hfail : saveUnder faults d = .error e d')
    (hs : s.content = d'.storage.content ∨ ∃ i, Packs faults d i) :
    Retryable c { d' with storage := s } := by
  obtain ⟨hkept, hcases⟩ := saveUnder_error hfail
  have hpacked : (∃ i, Packs faults d i) → d'.AllLoaded := by
    rintro ⟨i, hpacks⟩
    rcases hcases with ⟨hnot, -⟩ | ⟨j, -, himage, -⟩
    · exact absurd hpacks (hnot i)
    · exact allLoaded_of_image himage
  have hsame : d'.storage.content = d.storage.content ∨ d'.AllLoaded := by
    rcases hcases with ⟨-, hcontent⟩ | ⟨i, hpacks, -⟩
    · exact .inl hcontent
    · exact .inr (hpacked ⟨i, hpacks⟩)
  have hthrough := h.through hkept
  refine ⟨⟨hthrough.header, hthrough.maxSections, hthrough.modified, hthrough.entries⟩, ?_⟩
  rcases h.resident with hcontent | hloaded
  · rcases hs with hs | hpacks
    · rcases hsame with hcontent' | hloaded'
      · exact .inl (hs.trans (hcontent'.trans hcontent))
      · exact .inr hloaded'
    · exact .inr (hpacked hpacks)
  · have hd' : d'.AllLoaded := hkept.allLoaded hloaded
    exact .inr hd'

theorem AfterFailures.retryable (h : AfterFailures c d) : Retryable c d := by
  induction h with
  | none => exact ⟨.refl _ c, .inl rfl⟩
  | failed _ hfail hs ih => exact ih.failed ((saveUnder_refuses _).trans hfail) hs
  | failedUnder _ hfail hs ih => exact ih.failed hfail hs

/-- What loading would have found can still be found. -/
theorem Retryable.loadable (h : Retryable c d) (hfree : d.storage.FaultFree)
    (hc : Kept c.storage.content c c') (hloaded : c'.AllLoaded) : d.Loadable := by
  rcases h.resident with hcontent | hall
  · refine ⟨hfree.obliging, fun e he hnone => ⟨hfree.reaches _, ?_⟩⟩
    obtain ⟨e₀, he₀, hfetched⟩ := exists_mem_of_forall₂ h.kept.entries he
    obtain ⟨e', he', hfetched'⟩ := exists_mem_of_forall₂ hc.entries.flip he₀
    obtain ⟨p, hp⟩ := hloaded e' he'
    rw [hcontent]
    cases hfetched with
    | loaded => cases hnone
    | same =>
      cases hfetched' with
      | loaded _ hholds => exact ⟨_, hholds⟩
      | same =>
        rw [hnone] at hp
        cases hp
  · exact hall.loadable hfree.obliging

/-- After saves that failed, whatever is on storage since the first byte was written over, a save
that is not refused does what the first one would have done, had it not been refused. -/
theorem save_after_failures (h : AfterFailures c d) (hfree : d.storage.FaultFree)
    (hsave : save { c with storage := { c.storage with refuses := fun _ => none } } = .ok () c') :
    save d = .ok () c' := by
  have hretry := h.retryable
  obtain ⟨hversion, c₀, sections, s, hrefreshed, hloaded, hencode, hstore, rfl⟩ :=
    exists_loaded_of_save hsave
  obtain rfl := Storage.store_ok hstore
  have hc₀ : Kept c.storage.content c c₀ :=
    (kept_refusing (fun _ _ => none) 0 c).trans hrefreshed.toKept
  have hd := hretry.loadable hfree hc₀ hloaded
  obtain ⟨d₀, hrefreshed', hloaded', -, hsaved⟩ := exists_loaded_save hd (by
    rw [hretry.kept.header]
    exact hversion)
  have hd₀ : Kept c.storage.content c d₀ := hretry.through hrefreshed'.toKept
  -- Both saves load the same directory, whichever bytes the failed ones left on storage.
  have hdirectory := hd₀.directory_unique hc₀ hloaded' hloaded
  have hrefuses : d₀.storage.refuses = c₀.storage.refuses := by
    rw [hrefreshed'.refuses, hrefreshed.refuses]
    funext op
    exact hfree op
  rw [hsaved sections (by rw [hdirectory]; exact hencode), hretry.kept.header]
  simp only [commit, hdirectory, hrefuses]

/-- For one, a save that could not write and one that could not flush, and other bytes on storage
after each of them. -/
theorem save_after_failures_at_write_and_flush :
    let c := after (write 0 [7, 8] (after (add { ty := 5, checksum := .weak }
      (create { content := [1, 2, 3] } { version := 1 }))))
    ∃ d c', AfterFailures c d ∧ d.storage.content = [9, 9] ∧ d.storage.FaultFree ∧
      save { c with storage := { c.storage with refuses := fun _ => none } } = .ok () c' ∧
      save d = .ok () c' := by
  intro c
  have hflags : ∀ e ∈ c.directory.entries, Flags.Valid e.requestedFlags := by
    intro e he
    obtain rfl := List.mem_singleton.1 he
    exact Flags.valid_select none .weak
  have hpacks : List.Forall₂ Entry.Packs c.directory.entries [⟨5, 0x8, [7, 8]⟩] :=
    .cons ⟨_, rfl, rfl⟩ .nil
  obtain ⟨sections, hsections, -⟩ := encodeFrom_of_packs hpacks hflags 0
  have hknown : ¬ MainHeader.isKnownVersion c.header.version = false := by decide
  have hfail : ∀ s op, op = .write ∨ op = .flush →
      ∃ s', saveUnder (fun _ => Storage.refusing (some op)) { c with storage := s } =
        .error (.io (.refused op)) { c with storage := s' } := by
    intro s op hop
    have hload : loadAllUnder (fun _ => Storage.refusing (some op))
        (List.range (Directory.size c.directory)) { c with storage := s } =
          .ok () { c with storage := { s with refuses := Storage.refusing (some op) } } := rfl
    rw [saveUnder_eq, if_neg hknown]
    simp only [hload, image, hsections, bind, Except.bind]
    rcases hop with rfl | rfl <;> exact ⟨_, rfl⟩
  have hpacked : ∀ s faults, Packs faults { c with storage := s } (.ofSections c.header sections) :=
    fun s faults => ⟨rfl, { c with storage := { s with refuses := faults 0 } }, rfl, by
      simp only [image, hsections, bind, Except.bind]
      rfl⟩
  let full : Storage := { content := [9], refuses := Storage.refusing (some .flush) }
  obtain ⟨s₁, hwrite⟩ := hfail c.storage .write (.inl rfl)
  obtain ⟨s₂, hflush⟩ := hfail full .flush (.inr rfl)
  have hfirst : AfterFailures c { c with storage := full } :=
    @AfterFailures.failedUnder _ _ { c with storage := s₁ } _ _ _ .none hwrite
      (.inr ⟨_, hpacked c.storage _⟩)
  have hsecond : save { c with storage := full } = .error (.io (.refused .flush))
      { c with storage := s₂ } := (saveUnder_refuses _).symm.trans hflush
  have hafter : AfterFailures c { c with storage := { content := [9, 9] } } :=
    @AfterFailures.failed _ _ { c with storage := s₂ } _ _ hfirst hsecond
      (.inr ⟨_, hpacked full _⟩)
  have hsave : ∃ c', save { c with storage := { c.storage with refuses := fun _ => none } } =
      .ok () c' := by
    have hsame : { c with storage := { c.storage with refuses := fun _ => none } } = c := rfl
    have hload : loadAll (List.range c.directory.size) c = .ok () c := rfl
    have hfree : c.storage.FaultFree := fun _ => rfl
    rw [hsame, save_eq, if_neg hknown]
    simp only [hload, hsections, Storage.store_eq hfree.obliging]
    exact ⟨_, rfl⟩
  obtain ⟨c', hsave⟩ := hsave
  exact ⟨_, c', hafter, rfl, fun _ => rfl, hsave, save_after_failures hafter (fun _ => rfl) hsave⟩

end Container

end SectionArchive
