import Mathlib
import SectionArchive.Proofs.FailedSaving
import SectionArchive.Proofs.LedgerEntries
/-!
What becomes of the entries of a container. Whatever happens to a container is one of two things:
either the main header stays and single entries are loaded, edited, exchanged, dropped, added or
taken out, or a save succeeded and each entry has the header of its packed payload. Invariants of
containers are proved from these two cases alone.
-/

namespace SectionArchive

open Section (Piece)

namespace Entry

/-- What an entry can become while it is not saved. -/
inductive Touched (foreign : Payload → Prop) (content : Bytes) (e : Entry) : Entry → Prop
  | fetched {e' : Entry} (h : e.Fetched content e') : Touched foreign content e e'
  | edited {p : Payload} (hp : e.payload = some p) (d : Edit) :
      Touched foreign content e { e with payload := some (d.apply p) }
  | exchanged {p : Payload} (hp : foreign p) :
      Touched foreign content e { e with payload := some p }
  | written (data : Bytes) :
      Touched foreign content e { e with payload := some { bytes := data, dirty := true } }
  | unloaded :
      Touched foreign content e { e with payload := if e.persisted then none else some {} }

/-- What an entry becomes when it is saved as a piece that lies inside the first `length` bytes. -/
inductive Resealed (length : Nat) (e : Entry) : Entry → Prop
  | intro {p : Piece} {q : Payload} {offset : Nat} (hfits : p.Fits) (hraw : p.raw = q.bytes)
      (hflags : p.flags = Flags.effective e.requestedFlags e.threshold p.raw.length)
      (hplace : offset + p.packed.length ≤ length) :
      Resealed length e { e with
        header := p.header offset, persisted := true, payload := some q.markClean }

theorem Fetched.eq_of_payload {content : Bytes} {e e' : Entry} (h : e.Fetched content e') :
    e' = { e with payload := e'.payload } := by
  cases h <;> rfl

end Entry

namespace Container

variable {c c' d : Container} {foreign : Payload → Prop}

/-! ### The two cases -/

/-- The main header is the same, and every entry comes of one that was there or is new. -/
structure Touched (foreign : Payload → Prop) (c c' : Container) : Prop where
  header : c'.header = c.header
  maxSections : c'.directory.maxSections = c.directory.maxSections
  entries : ∀ e' ∈ c'.directory.entries,
    (∃ e ∈ c.directory.entries, e.Touched foreign c.storage.content e') ∨
      ∃ o : SectionOptions, e' = .fresh o.header o.threshold

/-- All sections were loaded and packed, and their image was stored and taken over. -/
def Settled (c c' : Container) : Prop :=
  ∃ d pieces s, Refreshed c d ∧ List.Forall₂ Entry.Packs d.directory.entries pieces ∧
    (∀ p ∈ pieces, p.Fits) ∧
    let i := imageOf c.header.ty c.header.version c.header.typeExt pieces
    s.content = i.bytes ∧ c' = commit i { d with storage := s }

namespace Touched

theorem of_storage (c : Container) (s : Storage) : c.Touched foreign { c with storage := s } := by
  constructor
  · rfl
  · rfl
  · intro e he
    exact .inl ⟨e, he, .fetched (.same e)⟩

theorem refl (c : Container) : c.Touched foreign c := of_storage c c.storage

/-- One entry was exchanged. -/
theorem set {e e' : Entry} {i : Nat} (hi : c.directory.entries[i]? = some e)
    (htouched : e.Touched foreign c.storage.content e') :
    c.Touched foreign { c with directory := c.directory.set i e' } := by
  constructor
  · rfl
  · rfl
  · intro f hf
    rcases List.mem_or_eq_of_mem_set hf with hf | rfl
    · exact .inl ⟨f, hf, .fetched (.same f)⟩
    · exact .inl ⟨e, List.mem_of_getElem? hi, htouched⟩

/-- Payloads were loaded. -/
theorem of_kept (h : Kept c.storage.content c d) : c.Touched foreign d := by
  constructor
  · exact h.header
  · exact h.maxSections
  · intro e' he'
    obtain ⟨e, he, hfetched⟩ := exists_mem_of_forall₂ h.entries he'
    exact .inl ⟨e, he, .fetched hfetched⟩

theorem load (i : Nat) (c : Container) : c.Touched foreign (after (Container.load i c)) := by
  rcases load_cases i c with ⟨p, d, hload, hrefreshed, -⟩ | ⟨e, d, hload, hrefreshed⟩
  all_goals
    rw [hload]
    exact of_kept hrefreshed.toKept

theorem editWith (i : Nat) (d : Edit) (c : Container) :
    c.Touched foreign (after (Container.editWith i d c)) := by
  rw [editWith_eq]
  cases hi : c.directory.entries[i]? with
  | none => exact refl c
  | some e =>
    cases hpayload : e.payload with
    | none =>
      simp only [hpayload]
      exact refl c
    | some p =>
      simp only [hpayload]
      exact set hi (.edited hpayload d)

theorem edit {p : Payload} (hp : foreign p) (i : Nat) (c : Container) :
    c.Touched foreign (after (Container.edit i p c)) := by
  rw [edit_eq]
  cases hi : c.directory.entries[i]? with
  | none => exact refl c
  | some e =>
    simp only
    split
    · exact set hi (.exchanged hp)
    · exact refl c

theorem write (i : Nat) (data : Bytes) (c : Container) :
    c.Touched foreign (after (Container.write i data c)) := by
  rw [write_eq]
  cases hi : c.directory.entries[i]? with
  | none => exact refl c
  | some e => exact set hi (.written data)

theorem unload (i : Nat) (c : Container) : c.Touched foreign (after (Container.unload i c)) := by
  rw [unload_eq]
  cases hi : c.directory.entries[i]? with
  | none => exact refl c
  | some e => exact set hi .unloaded

theorem add (o : SectionOptions) (c : Container) :
    c.Touched foreign (after (Container.add o c)) := by
  rw [add_eq]
  split
  · exact refl c
  · constructor
    · rfl
    · rfl
    · intro e he
      rcases List.mem_append.1 he with he | he
      · exact .inl ⟨e, he, .fetched (.same e)⟩
      · exact .inr ⟨o, List.mem_singleton.1 he⟩

theorem remove (i : Nat) (c : Container) : c.Touched foreign (after (Container.remove i c)) := by
  rw [remove_eq]
  cases c.directory.entries[i]? with
  | none => exact refl c
  | some e =>
    constructor
    · rfl
    · rfl
    · intro f hf
      exact .inl ⟨f, List.mem_of_mem_eraseIdx hf, .fetched (.same f)⟩

theorem copy {σ : Type} (i : Nat) (w : Writer σ) (sink : σ) (c : Container) :
    c.Touched foreign (after (Container.copy i w (c, sink))).1 := by
  obtain ⟨position, hcopy⟩ := exists_after_copy i w c sink
  rw [hcopy]
  exact of_storage c _

end Touched

/-- A save fails and only loaded payloads, or it settles all sections. -/
theorem touched_or_settled_of_save (hmagic : c.header.signature = MainHeader.magic) :
    c.Touched foreign (after (save c)) ∨ c.Settled (after (save c)) := by
  cases hsave : save c with
  | error e c' =>
    rw [← saveUnder_refuses] at hsave
    exact .inl (.of_kept (saveUnder_error hsave).1)
  | ok u c' =>
    obtain ⟨d, pieces, s, hrefreshed, hpacks, hfits, hstore, rfl⟩ :=
      exists_stored_of_save hmagic hsave
    refine .inr ⟨d, pieces, s, hrefreshed, hpacks, hfits, ?_, rfl⟩
    rw [Storage.store_ok hstore]

theorem touched_or_settled_of_perform (hmagic : c.header.signature = MainHeader.magic) (op : Op) :
    c.Touched foreign (after (perform op c)) ∨ c.Settled (after (perform op c)) := by
  unfold perform
  cases op with
  | save => exact touched_or_settled_of_save hmagic
  | write i data => exact .inl (.write i data c)
  | edit i d => exact .inl (.editWith i d c)
  | unload i => exact .inl (.unload i c)
  | add o =>
    simp only [after_silently]
    exact .inl (.add o c)
  | remove i =>
    simp only [after_silently]
    exact .inl (.remove i c)
  | load i =>
    simp only [after_silently]
    exact .inl (.load i c)
  | read i =>
    simp only [silently_read, after_silently]
    exact .inl (.load i c)

/-- Whatever happens to a container is one of the two. -/
theorem Change.touched_or_settled (hmagic : c.header.signature = MainHeader.magic)
    (h : Change foreign c c') : c.Touched foreign c' ∨ c.Settled c' := by
  cases h with
  | perform op => exact touched_or_settled_of_perform hmagic op
  | exchange i hp => exact .inl (.edit hp i c)
  | copy i w sink => exact .inl (.copy i w sink c)
  | outside s => exact .inl (.of_storage c s)
  | close =>
    rw [close_eq]
    split
    · exact touched_or_settled_of_save hmagic
    · exact .inl (.refl c)

/-- Every entry of a settled container has the header of its packed payload. -/
theorem Settled.entries (h : c.Settled c') :
    ∀ e' ∈ c'.directory.entries, ∃ e ∈ c.directory.entries,
      e.Resealed c'.storage.content.length e' := by
  obtain ⟨d, pieces, s, hrefreshed, hpacks, hfits, hcontent, rfl⟩ := h
  intro e' he'
  obtain ⟨j, hj⟩ := List.mem_iff_getElem?.1 he'
  simp only [commit, imageOf, List.getElem?_zipWith, getElem?_pieceHeaders] at hj
  rcases forall₂_getElem? hpacks j with ⟨hnone, -⟩ | ⟨f, p, hf, hp, q, hq, hpiece⟩
  · simp only [hnone] at hj
    cases hj
  · simp only [hf, hp, Option.map_some, Option.some.injEq] at hj
    obtain ⟨e, he, hfetched⟩ := exists_mem_of_forall₂ hrefreshed.entries (List.mem_of_getElem? hf)
    refine ⟨e, he, ?_⟩
    have hsame := hfetched.eq_of_payload
    have hsettled : settle f (p.header (40 + 24 * pieces.length + piecesLength (pieces.take j))) =
        { e with
          header := p.header (40 + 24 * pieces.length + piecesLength (pieces.take j))
          persisted := true, payload := some q.markClean } := by
      rw [settle, hq, hsame]
      rfl
    have hinside := piecesLength_take_add_le hp
    rw [← hj, hsettled]
    apply Entry.Resealed.intro (hfits p (List.mem_of_getElem? hp))
    · rw [hpiece]
      rfl
    · rw [hpiece, hsame]
      rfl
    · simp only [commit, hcontent, length_bytes_imageOf]
      omega

theorem Settled.fileSize (h : c.Settled c') :
    c'.header.fileSize = UInt64.ofNat c'.storage.content.length := by
  obtain ⟨d, pieces, s, -, -, -, hcontent, rfl⟩ := h
  simp only [commit, hcontent, length_bytes_imageOf]
  rfl

theorem Settled.maxSections (h : c.Settled c') :
    c'.directory.maxSections = c.directory.maxSections := by
  obtain ⟨d, pieces, s, hrefreshed, -, -, -, rfl⟩ := h
  exact hrefreshed.maxSections

/-! ### Invariants -/

namespace Evolved

variable {allowed : Storage → Prop} {maxSections : UInt32}

theorem maxSections_eq (h : Evolved foreign allowed maxSections c) :
    c.directory.maxSections = maxSections := by
  induction h with
  | created hroom => exact hroom
  | opened h =>
    obtain ⟨position, header, headers, -, rfl⟩ := ofStorage_ok h
    rfl
  | changed h hchange _ ih =>
    rcases hchange.touched_or_settled h.bounded.signature with htouched | hsettled
    · rw [htouched.maxSections, ih]
    · rw [hsettled.maxSections, ih]

/-- What holds of new entries and of those found on storage, and is kept when entries are touched
and when they are saved, holds of every entry. It may speak of the size in the main header. -/
theorem forall_entries {P : UInt64 → Entry → Prop} (h : Evolved foreign allowed maxSections c)
    (hfresh : ∀ (n : UInt64) (o : SectionOptions), P n (.fresh o.header o.threshold))
    (hstored : ∀ bs header headers, Opening.verdict maxSections bs = .ok (header, headers) →
      ∀ t ∈ headers, P header.fileSize (.ofStored t))
    (htouched : ∀ n content e e', P n e → e.Touched foreign content e' → P n e')
    (hresealed : ∀ (s : Storage) n e e', allowed s → P n e → e.Resealed s.content.length e' →
      P (.ofNat s.content.length) e') :
    ∀ e ∈ c.directory.entries, P c.header.fileSize e := by
  induction h with
  | created hroom =>
    intro e he
    cases he
  | opened h =>
    obtain ⟨position, header, headers, hverdict, rfl⟩ := ofStorage_ok h
    intro e he
    obtain ⟨t, ht, rfl⟩ := List.mem_map.1 he
    exact hstored _ header headers hverdict t ht
  | @changed c c' h hchange hs ih =>
    intro e' he'
    rcases hchange.touched_or_settled h.bounded.signature with hcase | hcase
    · rw [hcase.header]
      rcases hcase.entries e' he' with ⟨e, he, htouch⟩ | ⟨o, rfl⟩
      · exact htouched _ _ e e' (ih e he) htouch
      · exact hfresh _ o
    · obtain ⟨e, he, hreseal⟩ := hcase.entries e' he'
      rw [hcase.fileSize]
      exact hresealed c'.storage _ e e' hs (ih e he) hreseal

end Evolved

end Container

end SectionArchive
