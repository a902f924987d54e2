import Mathlib
import SectionArchive.Proofs.Operations
import SectionArchive.Proofs.SavedImage
/-!
Saving. The image is made of pieces: what each section is saved as follows from its type, the flags
and the threshold it was created with and its payload, wherever that payload is and whatever an
earlier save wrote into its header. A save that succeeds leaves this image and nothing else, and the
headers in memory are those of the image.
-/

namespace SectionArchive

open Section (Piece)

namespace Entry

def Packs (e : Entry) (p : Piece) : Prop :=
  ∃ q, e.payload = some q ∧
    p = Section.piece q.bytes { e.header with flags := e.requestedFlags } e.threshold

/-- What a section is saved as: the flags are those asked for, but without packing below the
threshold, and a payload that is not in memory is the one on storage. -/
structure SavedAs (content : Bytes) (e : Entry) (p : Piece) : Prop where
  ty : p.ty = e.header.ty
  flags : p.flags = Flags.effective e.requestedFlags e.threshold p.raw.length
  raw : match e.payload with
    | some q => p.raw = q.bytes
    | none => Section.Holds content e.header p.raw

theorem Fetched.savedAs {content : Bytes} {e e' : Entry} {p : Piece} (h : e.Fetched content e')
    (hp : e'.Packs p) : e.SavedAs content p := by
  obtain ⟨q, hq, rfl⟩ := hp
  cases h with
  | same => exact ⟨rfl, rfl, by simp only [hq]; rfl⟩
  | @loaded raw hnone hholds =>
    obtain rfl : Payload.ofLoaded raw = q := Option.some.inj hq
    refine ⟨rfl, rfl, ?_⟩
    simp only [hnone]
    exact hholds

theorem SavedAs.packs {content : Bytes} {e e' : Entry} {p : Piece} (h : e.SavedAs content p)
    (hfetched : e.Fetched content e') (hloaded : ∃ q, e'.payload = some q) : e'.Packs p := by
  obtain ⟨ty, flags, raw⟩ := p
  obtain ⟨hty, hflags, hraw⟩ := h
  obtain ⟨q, hq⟩ := hloaded
  refine ⟨q, hq, ?_⟩
  cases hfetched with
  | same =>
    simp only [hq] at hty hflags hraw
    simp only [Section.piece, hty, hflags, hraw]
  | @loaded raw' hnone hholds =>
    obtain rfl : Payload.ofLoaded raw' = q := Option.some.inj hq
    simp only [hnone] at hty hflags hraw
    obtain rfl : raw = raw' := Section.Holds.unique hraw hholds
    simp only [Section.piece, hty, hflags, Payload.ofLoaded]

end Entry

namespace Container

/-- What packing a directory made is a piece for each of its sections. -/
theorem packs_of_encodeFrom {index : Nat} {entries : List Entry}
    {sections : List (Bytes × SectionHeader)} (h : encodeFrom index entries = .ok sections) :
    ∃ pieces, List.Forall₂ Entry.Packs entries pieces ∧ List.Forall₂ IsPiece sections pieces := by
  induction entries generalizing index sections with
  | nil =>
    cases h
    exact ⟨[], .nil, .nil⟩
  | cons e rest ih =>
    simp only [encodeFrom, bind, Except.bind] at h
    cases hfirst : encodeEntry index e with
    | error f => simp [hfirst] at h
    | ok packed =>
      cases hrest : encodeFrom (index + 1) rest with
      | error f => simp [hfirst, hrest] at h
      | ok more =>
        simp only [hfirst, hrest, pure, Except.pure, Except.ok.injEq] at h
        subst h
        obtain ⟨pieces, hpacks, hpieces⟩ := ih hrest
        cases hpayload : e.payload with
        | none => simp [encodeEntry, hpayload] at hfirst
        | some q =>
          simp only [encodeEntry, hpayload] at hfirst
          obtain ⟨-, hfits, rfl⟩ := Section.encode_eq_ok_iff.1 hfirst
          exact ⟨_ :: pieces, .cons ⟨q, hpayload, rfl⟩ hpacks, .cons ⟨hfits, _, rfl⟩ hpieces⟩

def tooLong? (index : Nat) (p : Piece) : Option Error :=
  if UInt32.size ≤ p.raw.length then some (.sectionIo (.payloadTooLong index p.raw.length))
  else if UInt32.size ≤ p.packed.length then some (.deflateTooLong index)
  else none

theorem encodeEntry_of_packs {e : Entry} {p : Piece} (h : e.Packs p)
    (hflags : Flags.Valid e.requestedFlags) (index : Nat) :
    match tooLong? index p with
    | some f => encodeEntry index e = .error f
    | none => ∃ packed, encodeEntry index e = .ok packed ∧ IsPiece packed p := by
  obtain ⟨q, hq, rfl⟩ := h
  obtain ⟨h, hh⟩ : ∃ h : SectionHeader, h = { e.header with flags := e.requestedFlags } := ⟨_, rfl⟩
  have hflags' : Flags.Valid h.flags := by rw [hh]; exact hflags
  simp only [encodeEntry, hq, ← hh, Section.encode_of_valid hflags', tooLong?]
  by_cases hraw : UInt32.size ≤ q.bytes.length
  · rw [if_pos (show UInt32.size ≤ (Section.piece q.bytes h e.threshold).raw.length from hraw),
      if_pos hraw]
    rfl
  · rw [if_neg (show ¬ UInt32.size ≤ (Section.piece q.bytes h e.threshold).raw.length from hraw),
      if_neg hraw]
    by_cases hpacked : UInt32.size ≤ (Section.piece q.bytes h e.threshold).packed.length
    · rw [if_pos hpacked, if_pos hpacked]
    · rw [if_neg hpacked, if_neg hpacked]
      exact ⟨_, rfl, ⟨Flags.valid_effective hflags' _ _, Nat.lt_of_not_le hraw,
        Nat.lt_of_not_le hpacked⟩, _, rfl⟩

/-- Packing a directory succeeds unless a piece is too long, and fails for the first that is. -/
theorem encodeFrom_of_packs {entries : List Entry} {pieces : List Piece}
    (h : List.Forall₂ Entry.Packs entries pieces)
    (hflags : ∀ e ∈ entries, Flags.Valid e.requestedFlags) (index : Nat) :
    match (pieces.zipIdx index).findSome? fun p => tooLong? p.2 p.1 with
    | some f => encodeFrom index entries = .error f
    | none => ∃ sections, encodeFrom index entries = .ok sections ∧
        List.Forall₂ IsPiece sections pieces := by
  induction h generalizing index with
  | nil => exact ⟨[], rfl, .nil⟩
  | @cons e p rest pieces hpacks _ ih =>
    have hfirst := encodeEntry_of_packs hpacks (hflags e (List.mem_cons_self ..)) index
    have hmore := ih (fun e he => hflags e (List.mem_cons_of_mem _ he)) (index + 1)
    rw [List.zipIdx_cons, List.findSome?_cons]
    cases hlong : tooLong? index p with
    | some f =>
      simp only [hlong] at hfirst
      simp only [encodeFrom, bind, Except.bind, hfirst]
    | none =>
      simp only [hlong] at hfirst
      obtain ⟨packed, hpacked, hpiece⟩ := hfirst
      split at hmore
      · next f hrest =>
        simp only [hrest, encodeFrom, bind, Except.bind, hpacked, hmore]
      · next hrest =>
        obtain ⟨sections, hsections, hpieces⟩ := hmore
        simp only [hrest, encodeFrom, bind, Except.bind, hpacked, hsections]
        exact ⟨_, rfl, .cons hpiece hpieces⟩

/-- A save that succeeds has loaded all payloads, packed them and stored their image. -/
theorem exists_loaded_of_save {c c' : Container} (h : save c = .ok () c') :
    MainHeader.isKnownVersion c.header.version = true ∧
      ∃ d sections s, Refreshed c d ∧ d.AllLoaded ∧
        encodeFrom 0 d.directory.entries = .ok sections ∧
        let i := Image.ofSections c.header sections
        Storage.store i.bytes d.storage = .ok () s ∧ c' = commit i { d with storage := s } := by
  rw [save_eq] at h
  by_cases hversion : MainHeader.isKnownVersion c.header.version = false
  · rw [if_pos hversion] at h
    cases h
  · rw [if_neg hversion] at h
    refine ⟨by simpa using hversion, ?_⟩
    rcases loadAll_cases (List.range c.directory.size) c with
      ⟨d, hload, hrefreshed, hall⟩ | ⟨e, d, hload, -⟩
    · simp only [hload] at h
      cases hencode : encodeFrom 0 d.directory.entries with
      | error e =>
        simp only [hencode] at h
        cases h
      | ok sections =>
        simp only [hencode, hrefreshed.header] at h
        cases hstore : Storage.store (Image.ofSections c.header sections).bytes d.storage with
        | error f s =>
          simp only [hstore] at h
          cases h
        | ok u s =>
          simp only [hstore] at h
          cases h
          exact ⟨d, sections, s, hrefreshed, allLoaded_of_resident hrefreshed.size hall, hencode, hstore,
            rfl⟩
    · simp only [hload] at h
      cases h

/-- Where all payloads can be loaded and nothing is refused, packing decides. -/
theorem exists_loaded_save {c : Container} (hc : c.Loadable)
    (hversion : MainHeader.isKnownVersion c.header.version = true) :
    ∃ d, Refreshed c d ∧ d.AllLoaded ∧
      (∀ e, encodeFrom 0 d.directory.entries = .error e → save c = .error e d) ∧
      ∀ sections, encodeFrom 0 d.directory.entries = .ok sections →
        let i := Image.ofSections c.header sections
        save c = .ok () (commit i { d with
          storage := { d.storage with content := i.bytes, position := i.bytes.length } }) := by
  obtain ⟨d, hload⟩ := hc.loadAll fun i hi => List.mem_range.1 hi
  rcases loadAll_cases (List.range c.directory.size) c with
    ⟨d', hload', hrefreshed, hall⟩ | ⟨e, d', hload', -⟩
  · rw [hload] at hload'
    cases hload'
    refine ⟨d, hrefreshed, allLoaded_of_resident hrefreshed.size hall, fun e hencode => ?_,
      fun sections hencode => ?_⟩
    · rw [save_eq, if_neg (by simp [hversion]), hload]
      simp only [hencode]
    · rw [save_eq, if_neg (by simp [hversion]), hload]
      simp only [hencode, Storage.store_eq (hrefreshed.loadable hc).obliging, hrefreshed.header]
  · rw [hload] at hload'
    cases hload'

/-- A save that succeeded, whatever the storage refuses: the sections were loaded and packed to
pieces, and storing their image succeeded. -/
theorem exists_stored_of_save {c c' : Container} (hmagic : c.header.signature = MainHeader.magic)
    (h : save c = .ok () c') :
    ∃ d pieces s, Refreshed c d ∧ List.Forall₂ Entry.Packs d.directory.entries pieces ∧
      (∀ p ∈ pieces, p.Fits) ∧
      let i := imageOf c.header.ty c.header.version c.header.typeExt pieces
      Storage.store i.bytes d.storage = .ok () s ∧ c' = commit i { d with storage := s } := by
  obtain ⟨-, d, sections, s, hrefreshed, -, hencode, hstore, rfl⟩ := exists_loaded_of_save h
  obtain ⟨pieces, hpacks, hpieces⟩ := packs_of_encodeFrom hencode
  rw [ofSections_eq_imageOf hmagic hpieces] at hstore ⊢
  exact ⟨d, pieces, s, hrefreshed, hpacks, fits_of_isPiece hpieces, hstore, rfl⟩

/-- A save that succeeded on a storage that refuses nothing: the sections were loaded and packed to
pieces, and their image was stored and taken over. -/
theorem save_cases {c c' : Container} (hfree : c.storage.FaultFree)
    (hmagic : c.header.signature = MainHeader.magic) (h : save c = .ok () c') :
    ∃ d pieces, Refreshed c d ∧ List.Forall₂ Entry.Packs d.directory.entries pieces ∧
      (∀ p ∈ pieces, p.Fits) ∧
      let i := imageOf c.header.ty c.header.version c.header.typeExt pieces
      c' = commit i { d with
        storage := { d.storage with content := i.bytes, position := i.bytes.length } } := by
  obtain ⟨d, pieces, s, hrefreshed, hpacks, hfits, hstore, rfl⟩ := exists_stored_of_save hmagic h
  have hfree' : d.storage.FaultFree := by
    intro op
    rw [hrefreshed.refuses]
    exact hfree op
  rw [Storage.store_eq hfree'.obliging] at hstore
  cases hstore
  exact ⟨d, pieces, hrefreshed, hpacks, hfits, rfl⟩

/-- Saving a container whose payloads can all be had loads them and then fails, for the first piece
that is too long, or stores the image. -/
theorem save_of_loadable {c : Container} (hc : c.Loadable)
    (hmagic : c.header.signature = MainHeader.magic)
    (hversion : MainHeader.isKnownVersion c.header.version = true)
    (hflags : ∀ e ∈ c.directory.entries, Flags.Valid e.requestedFlags) {pieces : List Piece}
    (hpieces : List.Forall₂ (Entry.SavedAs c.storage.content) c.directory.entries pieces) :
    ∃ d, Refreshed c d ∧ (∀ e ∈ d.directory.entries, ∃ p, e.payload = some p) ∧
      match pieces.zipIdx.findSome? fun p => tooLong? p.2 p.1 with
      | some f => save c = .error f d
      | none =>
        let i := imageOf c.header.ty c.header.version c.header.typeExt pieces
        (∀ p ∈ pieces, p.Fits) ∧ save c = .ok () (commit i { d with
          storage := { d.storage with content := i.bytes, position := i.bytes.length } }) := by
  obtain ⟨d, hrefreshed, hloaded, hfailed, hsaved⟩ := exists_loaded_save hc hversion
  have hpacks : List.Forall₂ Entry.Packs d.directory.entries pieces :=
    forall₂_comp (fun _ _ _ ⟨hin, hfetched⟩ hsaved => hsaved.packs hfetched hin)
      ((List.forall₂_and_left _ _).2 ⟨hloaded, hrefreshed.entries.flip⟩) hpieces
  have hflags' := Entry.valid_of_fetched hrefreshed.entries hflags
  refine ⟨d, hrefreshed, hloaded, ?_⟩
  have hencode := encodeFrom_of_packs hpacks hflags' 0
  split at hencode
  · next f hlong =>
    exact hfailed f hencode
  · next hlong =>
    obtain ⟨sections, hsections, hispieces⟩ := hencode
    have hdone := hsaved sections hsections
    rw [ofSections_eq_imageOf hmagic hispieces] at hdone
    exact ⟨fits_of_isPiece hispieces, hdone⟩

theorem headers_zipWith_settle {entries : List Entry} {headers : List SectionHeader}
    (h : entries.length = headers.length) :
    (List.zipWith settle entries headers).map Entry.header = headers := by
  refine List.ext_getElem (by simp [h]) fun i _ _ => ?_
  simp only [List.getElem_map, List.getElem_zipWith, settle]

theorem isDirty_settle (e : Entry) (h : SectionHeader) : (settle e h).isDirty = false := by
  simp only [Entry.isDirty, settle]
  cases e.payload <;> rfl

/-- Behind a save nothing is modified. -/
theorem isModified_commit (i : Image) (c : Container) : (commit i c).isModified = false := by
  simp only [isModified, commit, Bool.false_or, List.any_eq_false]
  intro e he
  obtain ⟨j, hj, rfl⟩ := List.getElem_of_mem he
  rw [List.getElem_zipWith, isDirty_settle]
  exact Bool.false_ne_true

theorem isModified_of_save {c c' : Container} (h : save c = .ok () c') : c'.isModified = false := by
  obtain ⟨-, d, sections, s, -, -, -, -, rfl⟩ := exists_loaded_of_save h
  exact isModified_commit _ _

/-- The layout of a container's bytes: main header, directory and packed pieces in order and without
gaps, every field of the headers as the pieces have it. -/
structure Canonical (content : Bytes) (h : MainHeader) (headers : List SectionHeader)
    (pieces : List Piece) : Prop where
  bytes : content = h.encode ++ headers.flatMap SectionHeader.encode ++ pieces.flatMap Piece.packed
  count : headers.length = pieces.length ∧ h.sectionCount.toNat = pieces.length
  fileSize : h.fileSize.toNat = content.length ∧
    content.length = 40 + 24 * pieces.length + packedLength headers
  checksum : h.checksum = Checksum.checksum (if h.version = 1 then .weak else .crc32)
    ({ h with checksum := 0 }.encode ++ headers.flatMap SectionHeader.encode)
  sections : ∀ i s p, headers[i]? = some s → pieces[i]? = some p →
    s.pointer.toNat = 40 + 24 * pieces.length + packedLength (headers.take i) ∧
    s.csize.toNat = p.packed.length ∧ s.size.toNat = p.raw.length ∧
    s.checksum = Checksum.checksum (Flags.kind p.flags) p.raw ∧ s.ty = p.ty ∧ s.flags = p.flags

theorem take_pieceHeaders (offset i : Nat) (pieces : List Piece) :
    (pieceHeaders offset pieces).take i = pieceHeaders offset (pieces.take i) := by
  induction pieces generalizing offset i with
  | nil => simp [pieceHeaders]
  | cons p rest ih =>
    cases i with
    | zero => rfl
    | succ i => simp only [pieceHeaders, List.take_succ_cons, ih]

theorem piecesLength_take_add_le {i : Nat} {p : Piece} {pieces : List Piece}
    (h : pieces[i]? = some p) :
    piecesLength (pieces.take i) + p.packed.length ≤ piecesLength pieces := by
  obtain ⟨hi, rfl⟩ := List.getElem?_eq_some_iff.1 h
  have hsplit : piecesLength pieces =
      piecesLength (pieces.take (i + 1)) + piecesLength (pieces.drop (i + 1)) := by
    simp only [piecesLength]
    rw [← List.sum_append, ← List.map_append, List.take_append_drop]
  rw [hsplit, List.take_succ_eq_append_getElem hi]
  simp only [piecesLength, List.map_append, List.sum_append, List.map_cons, List.map_nil,
    List.sum_cons, List.sum_nil]
  omega

theorem canonical_imageOf {ty : UInt8} {version : UInt32} {typeExt : FixedBytes 16}
    {pieces : List Piece} (hfits : ∀ p ∈ pieces, p.Fits) (hcount : pieces.length < UInt32.size)
    (hlength : (imageOf ty version typeExt pieces).bytes.length < UInt64.size) :
    Canonical (imageOf ty version typeExt pieces).bytes (imageOf ty version typeExt pieces).header
      (imageOf ty version typeExt pieces).headers pieces := by
  have hall := @length_bytes_imageOf ty version typeExt pieces
  refine ⟨?_, ⟨length_pieceHeaders .., toNat_sectionCount_imageOf hcount⟩,
    ⟨toNat_fileSize_imageOf hlength, ?_⟩, rfl, ?_⟩
  · rw [Image.bytes, List.flatMap_def (f := Piece.packed)]
    rfl
  · rw [hall, imageOf, packedLength_pieceHeaders hfits]
  · intro i s p hs hp
    have hfitsHere := hfits p (List.mem_of_getElem? hp)
    have hinside := piecesLength_take_add_le hp
    rw [hall] at hlength
    rw [imageOf, getElem?_pieceHeaders, hp, Option.map_some, Option.some.injEq] at hs
    subst hs
    refine ⟨?_, toNat_csize hfitsHere _, ?_, rfl, rfl, rfl⟩
    · rw [imageOf, take_pieceHeaders,
        packedLength_pieceHeaders fun q hq => hfits q (List.mem_of_mem_take hq)]
      simp only [Piece.header, UInt64.toNat_ofNat']
      exact Nat.mod_eq_of_lt (by simp only [UInt64.size] at hlength; omega)
    · simp only [Piece.header, UInt32.toNat_ofNat', Nat.mod_eq_of_lt hfitsHere.raw]

/-- A successful save of a reached container, on a storage that refuses nothing and whose length is
a 64-bit number, leaves the canonical image of what the sections are saved as. It is a function of
the container's type and of these pieces alone, and the headers in memory are the written ones. -/
theorem save_leaves_image {c c' : Container} (hc : Reachable c) (hfree : c.storage.FaultFree)
    (hsave : save c = .ok () c') (hlength : c'.storage.content.length < UInt64.size) :
    ∃ pieces, List.Forall₂ (Entry.SavedAs c.storage.content) c.directory.entries pieces ∧
      c'.storage.content = (imageOf c.header.ty c.header.version c.header.typeExt pieces).bytes ∧
      Canonical c'.storage.content c'.header c'.directory.headers pieces ∧
      c'.header.ty = c.header.ty ∧ c'.header.version = c.header.version ∧
      c'.header.typeExt = c.header.typeExt ∧ c'.isModified = false := by
  have hbounded := hc.bounded
  obtain ⟨d, pieces, hrefreshed, hpacks, hfits, rfl⟩ := save_cases hfree hbounded.signature hsave
  have hcount : pieces.length = c.directory.entries.length :=
    (hrefreshed.entries.length_eq.trans hpacks.length_eq).symm
  have hsmall : pieces.length < UInt32.size := by
    rw [hcount]
    exact Nat.lt_of_le_of_lt hbounded.size c.directory.maxSections.toNat_lt
  have hheaders :
      (commit (imageOf c.header.ty c.header.version c.header.typeExt pieces) d).directory.headers =
        (imageOf c.header.ty c.header.version c.header.typeExt pieces).headers := by
    refine headers_zipWith_settle ?_
    rw [imageOf, length_pieceHeaders, hpacks.length_eq]
  refine ⟨pieces, ?_, rfl, ?_, rfl, rfl, rfl, isModified_commit _ _⟩
  · exact forall₂_comp (fun _ _ _ hfetched hp => hfetched.savedAs hp) hrefreshed.entries hpacks
  · have hcanonical := canonical_imageOf hfits hsmall hlength
    rw [← hheaders] at hcanonical
    exact hcanonical

/-- For one, two bytes that are below the threshold, over a storage with other content. -/
theorem save_leaves_image_below_threshold :
    let c := after (write 0 [7, 8] (after (add
      { ty := 5, packing := some .zlib, checksum := .weak, threshold := some 16 }
      (create { content := [1, 2, 3], position := 2 } { version := 1 }))))
    ∃ c', Reachable c ∧ c.storage.FaultFree ∧ save c = .ok () c' ∧
      c'.storage.content.length < UInt64.size ∧
      ∃ pieces, List.Forall₂ (Entry.SavedAs c.storage.content) c.directory.entries pieces ∧
        c'.storage.content = (imageOf c.header.ty c.header.version c.header.typeExt pieces).bytes ∧
        Canonical c'.storage.content c'.header c'.directory.headers pieces ∧
        c'.header.ty = c.header.ty ∧ c'.header.version = c.header.version ∧
        c'.header.typeExt = c.header.typeExt ∧ c'.isModified = false := by
  intro c
  have hreachable : Reachable c := .write (.add (.create _ _) _) _ _
  have hfree : c.storage.FaultFree := fun _ => rfl
  have hloadable : c.Loadable := ⟨hfree.obliging, by
    intro e he hnone
    obtain rfl := List.mem_singleton.1 he
    cases hnone⟩
  have hflags : ∀ e ∈ c.directory.entries, Flags.Valid e.requestedFlags := by
    intro e he
    obtain rfl := List.mem_singleton.1 he
    exact Flags.valid_select (some .zlib) .weak
  have hpieces : List.Forall₂ (Entry.SavedAs c.storage.content) c.directory.entries
      [⟨5, 0x8, [7, 8]⟩] := .cons ⟨rfl, rfl, rfl⟩ .nil
  obtain ⟨d, -, -, -, hsave⟩ := save_of_loadable hloadable rfl rfl hflags hpieces
  have hlength := @length_bytes_imageOf c.header.ty c.header.version c.header.typeExt
    [⟨5, 0x8, [7, 8]⟩]
  have hsmall : (imageOf c.header.ty c.header.version c.header.typeExt
      [⟨5, 0x8, [7, 8]⟩]).bytes.length < UInt64.size := by
    rw [hlength]
    decide
  exact ⟨_, hreachable, hfree, hsave, hsmall, save_leaves_image hreachable hfree hsave hsmall⟩

end Container

end SectionArchive
