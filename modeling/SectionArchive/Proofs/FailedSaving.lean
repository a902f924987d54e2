import Mathlib
import SectionArchive.Proofs.Saving
import SectionArchive.Proofs.Streaming
/-!
Saves that fail. A save asks the storage for one thing after the other, and the storage may change
in between what it refuses; whichever request it is that fails, the container describes what it
described before. The bytes on storage are the old ones as long as writing was not done, and behind
that they begin with the whole new image.
-/

namespace SectionArchive

open Section (Piece)

namespace Storage

/-- A refusal before or at writing leaves the bytes as they are; one behind it leaves the image in
front of what it did not cover. -/
theorem store_error {image : Bytes} {s s' : Storage} {f : Fault} (h : store image s = .error f s') :
    ((s.refuses .seek ≠ none ∨ s.refuses .write ≠ none) ∧ s'.content = s.content) ∨
      (s.refuses .seek = none ∧ s.refuses .write = none) ∧
        (s.refuses .flush = some f ∨ s.refuses .flush = none ∧ s.refuses .setLength = some f) ∧
        s'.content = image ++ s.content.drop image.length := by
  rw [store_outcome] at h
  split at h
  · next hseek =>
    cases h
    exact .inl ⟨.inl (by rw [hseek]; nofun), rfl⟩
  · next hwrite =>
    cases h
    exact .inl ⟨.inr (by rw [hwrite]; nofun), rfl⟩
  · next hseek hwrite hflush =>
    cases h
    exact .inr ⟨⟨hseek, hwrite⟩, .inl hflush, rfl⟩
  · next hseek hwrite hflush hcut =>
    cases h
    exact .inr ⟨⟨hseek, hwrite⟩, .inr ⟨hflush, hcut⟩, rfl⟩
  · cases h

end Storage

namespace Container

variable {c c' d : Container} {e : Error}

/-! ### Saving while refusals come and go -/

/-- What the storage refuses while a save goes on: `faults i` while the section at `i` is loaded, and
`faults n` while the image of `n` sections is stored. Loading one section and storing an image ask
for each thing once, so these are all the ways in which refusals can come and go. -/
abbrev Faults := Nat → StorageOp → Option Fault

def refusing (faults : Faults) (i : Nat) (c : Container) : Container :=
  { c with storage := { c.storage with refuses := faults i } }

def loadAllUnder (faults : Faults) : (indices : List Nat) → Action Unit :=
  loadAllWith (refusing faults)

def saveUnder (faults : Faults) : Action Unit := saveWith (refusing faults)

theorem saveUnder_eq (faults : Faults) (c : Container) :
    saveUnder faults c =
      if MainHeader.isKnownVersion c.header.version = false then
        .error (.badVersion c.header.version) c
      else
        match loadAllUnder faults (List.range c.directory.size) c with
        | .error e d => .error e d
        | .ok () d =>
          match image d with
          | .error e => .error e d
          | .ok i =>
            match Storage.store i.bytes
                { d.storage with refuses := faults d.directory.size } with
            | .error f s => .error (.io f) { d with storage := s }
            | .ok () s => .ok () (commit i { d with storage := s }) := by
  rw [saveUnder, saveWith_eq]
  by_cases hversion : MainHeader.isKnownVersion c.header.version = false
  · rw [if_pos hversion, if_pos hversion]
  · rw [if_neg hversion, if_neg hversion]
    cases hload : loadAllUnder faults (List.range c.directory.size) c with
    | error e d => simp only [show loadAllWith (refusing faults) _ c = _ from hload]
    | ok u d =>
      simp only [show loadAllWith (refusing faults) _ c = _ from hload, image, bind, Except.bind]
      cases encodeFrom 0 d.directory.entries <;> rfl

theorem loadAllUnder_refuses (indices : List Nat) (c : Container) :
    loadAllUnder (fun _ => c.storage.refuses) indices c = loadAll indices c := by
  induction indices generalizing c with
  | nil => rfl
  | cons i rest ih =>
    rw [loadAllUnder, loadAll, loadAllWith_cons, loadAllWith_cons]
    rcases load_cases i c with ⟨p, d, hload, hrefreshed, -⟩ | ⟨e, d, hload, -⟩
    · have hmore := ih d
      rw [hrefreshed.refuses] at hmore
      simp only [refusing, id, hload]
      exact hmore
    · simp only [refusing, id, hload]

/-- A storage that refuses the same throughout is a storage. -/
theorem saveUnder_refuses (c : Container) : saveUnder (fun _ => c.storage.refuses) c = save c := by
  rw [saveUnder_eq, save_eq, loadAllUnder_refuses]
  rcases loadAll_cases (List.range c.directory.size) c with
    ⟨d, hload, hrefreshed, -⟩ | ⟨e, d, hload, -⟩
  · simp only [hload, image, ← hrefreshed.refuses]
    cases encodeFrom 0 d.directory.entries <;> rfl
  · simp only [hload]

/-! ### What a failed save leaves -/

/-- What the storage refuses says nothing about the container. -/
theorem kept_refusing (faults : Faults) (i : Nat) (c : Container) :
    Kept c.storage.content c (refusing faults i c) :=
  ⟨rfl, rfl, rfl, List.forall₂_same.2 fun e _ => .same e⟩

/-- Loading under any refusals keeps the container and the bytes on storage, and if it succeeds, the
listed sections are in memory. -/
theorem loadAllUnder_cases (faults : Faults) (indices : List Nat) (c : Container) :
    (∃ d, loadAllUnder faults indices c = .ok () d ∧ (Kept c.storage.content c d ∧
        d.storage.content = c.storage.content) ∧ ∀ i ∈ indices, ∃ p, Resident d i p) ∨
      ∃ e d, loadAllUnder faults indices c = .error e d ∧ Kept c.storage.content c d ∧
        d.storage.content = c.storage.content := by
  refine loadAllWith_cases (R := fun c d => Kept c.storage.content c d ∧
    d.storage.content = c.storage.content) ?_ ?_ ?_ ?_ indices c
  · rintro c d d' ⟨hfirst, hcontent⟩ ⟨hmore, hcontent'⟩
    rw [hcontent] at hmore
    exact ⟨hfirst.trans hmore, hcontent'.trans hcontent⟩
  · exact fun h => ⟨h.toKept, h.content⟩
  · exact fun i c => ⟨kept_refusing faults i c, rfl⟩
  · exact fun h => h.1.resident

/-- The save gets as far as storing this image: everything could be loaded and packed. -/
def Packs (faults : Faults) (c : Container) (i : Image) : Prop :=
  MainHeader.isKnownVersion c.header.version = true ∧
    ∃ d, loadAllUnder faults (List.range c.directory.size) c = .ok () d ∧ image d = .ok i

/-- The save gets as far as having written this image: going to the start and writing were not
refused either. -/
def WritesImage (faults : Faults) (c : Container) (i : Image) : Prop :=
  Packs faults c i ∧ faults c.directory.size .seek = none ∧ faults c.directory.size .write = none

theorem Packs.unique {faults : Faults} {i j : Image} (hi : Packs faults c i)
    (hj : Packs faults c j) : i = j := by
  obtain ⟨-, d, hload, himage⟩ := hi
  obtain ⟨-, d', hload', himage'⟩ := hj
  rw [hload] at hload'
  cases hload'
  rw [himage] at himage'
  exact Except.ok.inj himage'

/-- How a save under refusals fails, and what it leaves: for the version, while loading, while
packing or while storing. -/
inductive SaveFails (faults : Faults) (c : Container) : Error → Container → Prop
  | version (h : MainHeader.isKnownVersion c.header.version = false) :
      SaveFails faults c (.badVersion c.header.version) c
  | load {e : Error} {d : Container} (hkept : Kept c.storage.content c d)
      (hcontent : d.storage.content = c.storage.content)
      (h : loadAllUnder faults (List.range c.directory.size) c = .error e d) :
      SaveFails faults c e d
  | pack {e : Error} {d : Container} (hkept : Kept c.storage.content c d)
      (hcontent : d.storage.content = c.storage.content) (hloaded : d.AllLoaded)
      (hload : loadAllUnder faults (List.range c.directory.size) c = .ok () d)
      (h : image d = .error e) : SaveFails faults c e d
  | store {i : Image} {f : Fault} {d : Container} {s : Storage} (hkept : Kept c.storage.content c d)
      (hcontent : d.storage.content = c.storage.content) (hpacks : Packs faults c i)
      (himage : image d = .ok i)
      (h : Storage.store i.bytes { d.storage with refuses := faults c.directory.size } =
        .error f s) : SaveFails faults c (.io f) { d with storage := s }

theorem saveFails_of_saveUnder {faults : Faults} (h : saveUnder faults c = .error e c') :
    SaveFails faults c e c' := by
  rw [saveUnder_eq] at h
  by_cases hversion : MainHeader.isKnownVersion c.header.version = false
  · rw [if_pos hversion] at h
    cases h
    exact .version hversion
  · rw [if_neg hversion] at h
    rcases loadAllUnder_cases faults (List.range c.directory.size) c with
      ⟨d, hload, ⟨hkept, hcontent⟩, hall⟩ | ⟨f, d, hload, hkept, hcontent⟩
    · simp only [hload] at h
      cases himage : image d with
      | error f =>
        simp only [himage] at h
        cases h
        exact .pack hkept hcontent (allLoaded_of_resident hkept.size hall) hload himage
      | ok i =>
        simp only [himage, hkept.size] at h
        cases hstore : Storage.store i.bytes
            { d.storage with refuses := faults c.directory.size } with
        | ok u s =>
          rw [hstore] at h
          cases h
        | error f s =>
          rw [hstore] at h
          cases h
          exact .store hkept hcontent ⟨by simpa using hversion, d, hload, himage⟩ himage hstore
    · simp only [hload] at h
      cases h
      exact .load hkept hcontent hload

/-- How far a save that failed got: it could not load or pack, or the image was refused before it
was written or behind that. -/
theorem saveUnder_error {faults : Faults} (h : saveUnder faults c = .error e c') :
    Kept c.storage.content c c' ∧
      ((∀ i, ¬ Packs faults c i) ∧ c'.storage.content = c.storage.content ∨
        ∃ i, Packs faults c i ∧ image c' = .ok i ∧
          (¬ WritesImage faults c i ∧ c'.storage.content = c.storage.content ∨
            WritesImage faults c i ∧
              (∃ f, e = .io f ∧ (faults c.directory.size .flush = some f ∨
                faults c.directory.size .flush = none ∧
                  faults c.directory.size .setLength = some f)) ∧
              c'.storage.content = i.bytes ++ c.storage.content.drop i.bytes.length)) := by
  cases saveFails_of_saveUnder h with
  | version hversion =>
    refine ⟨.refl _ c, .inl ⟨fun i hpacks => ?_, rfl⟩⟩
    rw [hpacks.1] at hversion
    cases hversion
  | load hkept hcontent hload =>
    refine ⟨hkept, .inl ⟨fun i hpacks => ?_, hcontent⟩⟩
    obtain ⟨-, d, hload', -⟩ := hpacks
    rw [hload] at hload'
    cases hload'
  | pack hkept hcontent _ hload himage =>
    refine ⟨hkept, .inl ⟨fun i hpacks => ?_, hcontent⟩⟩
    obtain ⟨-, d, hload', himage'⟩ := hpacks
    rw [hload] at hload'
    cases hload'
    rw [himage] at himage'
    cases himage'
  | @store i f d s hkept hcontent hpacks himage hstore =>
    refine ⟨⟨hkept.header, hkept.maxSections, hkept.modified, hkept.entries⟩,
      .inr ⟨i, hpacks, himage, ?_⟩⟩
    rcases Storage.store_error hstore with ⟨hrefused, hsame⟩ | ⟨haccepted, hfault, hnew⟩
    · exact .inl ⟨fun hwrites => hrefused.elim (· hwrites.2.1) (· hwrites.2.2),
        hsame.trans hcontent⟩
    · refine .inr ⟨⟨hpacks, haccepted⟩, ⟨f, rfl, hfault⟩, ?_⟩
      rw [← hcontent]
      exact hnew

/-! ### The image behind a refusal -/

/-- The image of a kept container is that of the pieces its sections are saved as. -/
theorem Kept.image_eq_imageOf {content : Bytes} {i : Image} (hkept : Kept content c d)
    (hmagic : c.header.signature = MainHeader.magic) (himage : image d = .ok i) :
    ∃ pieces, List.Forall₂ (Entry.SavedAs content) c.directory.entries pieces ∧
      (∀ p ∈ pieces, p.Fits) ∧
      i = imageOf c.header.ty c.header.version c.header.typeExt pieces := by
  simp only [image, bind, Except.bind] at himage
  cases hencode : encodeFrom 0 d.directory.entries with
  | error e => simp [hencode] at himage
  | ok sections =>
    simp only [hencode, pure, Except.pure, Except.ok.injEq] at himage
    obtain ⟨pieces, hpacks, hpieces⟩ := packs_of_encodeFrom hencode
    refine ⟨pieces, forall₂_comp (fun _ _ _ hfetched hp => hfetched.savedAs hp) hkept.entries
      hpacks, fits_of_isPiece hpieces, ?_⟩
    rw [← himage, hkept.header, ofSections_eq_imageOf hmagic hpieces]

/-- Whoever opens these bytes finds the headers of the image and in each section the payload of its
piece. -/
def Reopens (bs : Bytes) (i : Image) (pieces : List Piece) : Prop :=
  ∀ (maxSections : UInt32) (position : Nat), pieces.length ≤ maxSections.toNat →
    ∃ o s, ofStorage maxSections { content := bs, position } = .ok o s ∧
      o.header = i.header ∧ o.directory.headers = i.headers ∧
      ∀ j p, pieces[j]? = some p → answer (read j o) = .ok p.raw

/-- Bytes behind an image do not disturb it. -/
theorem reopens_append {ty : UInt8} {version : UInt32} {typeExt : FixedBytes 16}
    {pieces : List Piece} (hversion : MainHeader.isKnownVersion version = true)
    (hfits : ∀ p ∈ pieces, p.Fits)
    (hlength : (imageOf ty version typeExt pieces).bytes.length < UInt64.size) (rest : Bytes) :
    Reopens ((imageOf ty version typeExt pieces).bytes ++ rest)
      (imageOf ty version typeExt pieces) pieces := by
  intro maxSections position hcount
  have hheaders : (imageOf ty version typeExt pieces).headers.length = pieces.length :=
    length_pieceHeaders ..
  have hall := @length_bytes_imageOf ty version typeExt pieces
  have hverdict : Opening.verdict maxSections ((imageOf ty version typeExt pieces).bytes ++ rest) =
      .ok ((imageOf ty version typeExt pieces).header,
        (imageOf ty version typeExt pieces).headers) := by
    refine Opening.verdict_congr (verdict_imageOf hversion hfits hlength hcount) ?_
    rw [hheaders, List.take_append_of_le_length (by omega)]
  refine ⟨_, _, by rw [ofStorage_of_readable rfl rfl, hverdict], rfl, ?_, fun j p hj => ?_⟩
  · exact Opening.headers_opened ..
  · obtain ⟨s, hs, hplaces⟩ := exists_getElem?_of_forall₂ (places_imageOf hfits hlength) hj
    have hentry := Opening.entries_opened maxSections
      { content := (imageOf ty version typeExt pieces).bytes ++ rest
        position := ((imageOf ty version typeExt pieces).bytes ++ rest).length }
      (imageOf ty version typeExt pieces).header (imageOf ty version typeExt pieces).headers j
    rw [hs, Option.map_some] at hentry
    exact answer_read_of_holds (fun _ => rfl) hentry rfl (hplaces.stored.append rest).2

/-- How a save that fails with `e` leaves a container `c`. -/
structure Undone (faults : Faults) (c : Container) (e : Error) (c' : Container) : Prop where
  kept : Kept c.storage.content c c'
  headers : c'.directory.headers = c.directory.headers
  isModified : c'.isModified = c.isModified
  /-- What was not written over is as it was. -/
  untouched : (∀ i, ¬ WritesImage faults c i) → c'.storage.content = c.storage.content
  /-- Behind the writing only flushing and cutting can fail, and the image is there as a whole. -/
  written : ∀ i, WritesImage faults c i →
    (∃ f, e = .io f ∧ (faults c.directory.size .flush = some f ∨
      faults c.directory.size .flush = none ∧ faults c.directory.size .setLength = some f)) ∧
    c'.storage.content = i.bytes ++ c.storage.content.drop i.bytes.length ∧
    ∃ pieces, List.Forall₂ (Entry.SavedAs c.storage.content) c.directory.entries pieces ∧
      i = imageOf c.header.ty c.header.version c.header.typeExt pieces ∧
      (i.bytes.length < UInt64.size → Reopens c'.storage.content i pieces)

theorem undone_of_saveUnder {faults : Faults} (hc : Reachable c)
    (h : saveUnder faults c = .error e c') : Undone faults c e c' := by
  obtain ⟨hkept, hcases⟩ := saveUnder_error h
  refine ⟨hkept, hkept.headers, hkept.isModified, fun hnot => ?_, fun i hwrites => ?_⟩
  · rcases hcases with ⟨-, hsame⟩ | ⟨i, -, -, ⟨-, hsame⟩ | ⟨hwrites, -⟩⟩
    · exact hsame
    · exact hsame
    · exact absurd hwrites (hnot i)
  · rcases hcases with ⟨hnot, -⟩ | ⟨i', hpacks, himage, hstored⟩
    · exact absurd hwrites.1 (hnot i)
    · obtain rfl := hwrites.1.unique hpacks
      rcases hstored with ⟨hnot, -⟩ | ⟨-, hfault, hcontent⟩
      · exact absurd hwrites hnot
      · obtain ⟨pieces, hsaved, hfits, rfl⟩ :=
          hkept.image_eq_imageOf hc.bounded.signature himage
        refine ⟨hfault, hcontent, pieces, hsaved, rfl, fun hlength => ?_⟩
        rw [hcontent]
        exact reopens_append hpacks.1 hfits hlength _

/-- A save that fails, on whatever storage and whatever it refuses at which time, leaves the
container describing what it described before. The bytes on storage are as they were, unless the
image was written when flushing or cutting was refused; then they begin with the whole of it, and
opening them gives the new payloads. -/
theorem failed_save_is_atomic (hc : Reachable c) :
    (∀ faults e c', saveUnder faults c = .error e c' → Undone faults c e c') ∧
      ∀ e c', save c = .error e c' → Undone (fun _ => c.storage.refuses) c e c' := by
  refine ⟨fun faults e c' h => undone_of_saveUnder hc h, fun e c' h => ?_⟩
  rw [← saveUnder_refuses] at h
  exact undone_of_saveUnder hc h

/-- For one, a section of two bytes over a storage with other content that refuses to flush. -/
theorem failed_save_is_atomic_at_flush :
    let c := after (write 0 [7, 8] (after (add { ty := 5, checksum := .weak }
      (create { content := [1, 2, 3], refuses := Storage.refusing (some .flush) }
        { version := 1 }))))
    ∃ c', Reachable c ∧ save c = .error (.io (.refused .flush)) c' ∧
      Undone (fun _ => c.storage.refuses) c (.io (.refused .flush)) c' := by
  intro c
  have hreachable : Reachable c := .write (.add (.create _ _) _) _ _
  have hflags : ∀ e ∈ c.directory.entries, Flags.Valid e.requestedFlags := by
    intro e he
    obtain rfl := List.mem_singleton.1 he
    exact Flags.valid_select none .weak
  have hpacks : List.Forall₂ Entry.Packs c.directory.entries [⟨5, 0x8, [7, 8]⟩] :=
    .cons ⟨_, rfl, rfl⟩ .nil
  obtain ⟨sections, hsections, -⟩ := encodeFrom_of_packs hpacks hflags 0
  have hloaded : loadAll (List.range c.directory.size) c = .ok () c := rfl
  have hsave : ∃ c', save c = .error (.io (.refused .flush)) c' := by
    rw [save_eq, if_neg (by decide), hloaded]
    simp only [hsections]
    exact ⟨_, rfl⟩
  obtain ⟨c', hsave⟩ := hsave
  exact ⟨c', hreachable, hsave, (failed_save_is_atomic hreachable).2 _ c' hsave⟩

end Container

end SectionArchive
