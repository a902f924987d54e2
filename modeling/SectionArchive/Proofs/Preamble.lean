import Mathlib
import SectionArchive.Proofs.FlippedHeaders
/-!
The preamble of a container: the main header and the directory behind it. Reading it takes back
what was encoded, whatever follows; and encoding what was read gives the bytes that were read, the
reserved pair of each section header zeroed. So these pairs are all that is lost: two preambles are
read alike just when they agree elsewhere.
-/

namespace SectionArchive.Preamble

variable {h : MainHeader} {d : Directory} {bs bs' rest : Bytes} {maxSections : UInt32}

def encode (h : MainHeader) (sections : List SectionHeader) : Bytes :=
  h.encode ++ sections.flatMap SectionHeader.encode

def read (maxSections : UInt32) (bs : Bytes) : Except Error ((MainHeader × Directory) × Bytes) := do
  let (h, rest) ← MainHeader.decode bs
  let (d, rest) ← Directory.load rest h.sectionCount maxSections
  return ((h, d), rest)

def Reserved (p : Nat) : Prop := 40 ≤ p ∧ 22 ≤ (p - 40) % 24

instance : DecidablePred Reserved := fun p =>
  inferInstanceAs (Decidable (40 ≤ p ∧ 22 ≤ (p - 40) % 24))

def blanked (bs : Bytes) : Bytes := bs.mapIdx fun p b => if Reserved p then 0 else b

/-- The same bytes, but for the reserved ones, in a preamble of `n` sections. -/
def Coincide (n : Nat) (bs bs' : Bytes) : Prop :=
  ∀ p < 40 + 24 * n, ¬ Reserved p → bs'[p]? = bs[p]?

theorem length_encode (h : MainHeader) (sections : List SectionHeader) :
    (encode h sections).length = 40 + 24 * sections.length := by
  rw [encode, List.length_append, MainHeader.length_encode, SectionHeader.length_flatMap_encode,
    MainHeader.width]

/-! ### Reading -/

structure Legible (maxSections : UInt32) (bs : Bytes) : Prop where
  magic : bs.take 3 = [0x42, 0x50, 0x58]
  known : MainHeader.isKnownVersion (MainHeader.stored bs).version = true
  allowed : ¬ maxSections < (MainHeader.stored bs).sectionCount
  long : 40 + 24 * (MainHeader.stored bs).sectionCount.toNat ≤ bs.length

/-- What is read is what stands at fixed places. -/
theorem read_eq_ok_iff :
    read maxSections bs = .ok ((h, d), rest) ↔
      Legible maxSections bs ∧ h = MainHeader.stored bs ∧
        d = { entries := (Opening.directory bs).map Entry.ofStored, maxSections } ∧
        rest = bs.drop (40 + 24 * (MainHeader.stored bs).sectionCount.toNat) := by
  constructor
  · intro hread
    cases hdecode : MainHeader.decode bs with
    | error e => simp only [read, hdecode, bind, Except.bind, reduceCtorEq] at hread
    | ok r =>
      obtain ⟨h', behind⟩ := r
      cases hload : Directory.load behind h'.sectionCount maxSections with
      | error e => simp only [read, hdecode, bind, Except.bind, hload, reduceCtorEq] at hread
      | ok r' =>
        simp only [read, hdecode, bind, Except.bind, hload] at hread
        cases hread
        obtain ⟨hmagic, hknown, hheader, rfl, rfl⟩ := MainHeader.decode_eq_ok_iff.1 hdecode
        obtain ⟨hallowed, hlong, hdirectory, hrest⟩ := Opening.load_eq_ok_iff.1 hload
        rw [List.length_drop] at hlong
        rw [List.drop_drop] at hrest
        exact ⟨⟨hmagic, hknown, hallowed, by omega⟩, rfl, hdirectory, hrest⟩
  · rintro ⟨⟨hmagic, hknown, hallowed, hlong⟩, rfl, rfl, rfl⟩
    have hdecode : MainHeader.decode bs = .ok (MainHeader.stored bs, bs.drop 40) :=
      MainHeader.decode_eq_ok_iff.2 ⟨hmagic, hknown, by omega, rfl, rfl⟩
    have henough : 24 * (MainHeader.stored bs).sectionCount.toNat ≤ (bs.drop 40).length := by
      rw [List.length_drop]
      omega
    have hload := Opening.load_eq_ok_iff.2 ⟨hallowed, henough, rfl, rfl⟩
    simp only [read, hdecode, bind, Except.bind, hload, List.drop_drop]
    rfl

/-- A preamble that was encoded is read back. -/
theorem read_encode (hmagic : h.signature = MainHeader.magic)
    (hknown : MainHeader.isKnownVersion h.version = true) {sections : List SectionHeader}
    (hcount : sections.length = h.sectionCount.toNat) (hallowed : h.sectionCount ≤ maxSections)
    (rest : Bytes) :
    read maxSections (encode h sections ++ rest) =
      .ok ((h, { entries := sections.map Entry.ofStored, maxSections }), rest) := by
  have hsplit : encode h sections ++ rest =
      h.encode ++ (sections.flatMap SectionHeader.encode ++ rest) := List.append_assoc ..
  have hstored : MainHeader.stored (encode h sections ++ rest) = h := by
    rw [hsplit, MainHeader.stored_encode hmagic]
  have hdirectory : Opening.directory (encode h sections ++ rest) = sections := by
    have hwidth : h.encode.length = 40 := MainHeader.length_encode h
    rw [Opening.directory, hstored, ← hcount, hsplit, List.drop_left' hwidth,
      SectionHeader.firstOf_flatMap_encode]
  have hletters : (encode h sections ++ rest).take 3 = MainHeader.magic.val := by
    rw [hsplit, MainHeader.encode, hmagic]
    rfl
  refine read_eq_ok_iff.2 ⟨⟨hletters, ?_, ?_, ?_⟩, hstored.symm, ?_, ?_⟩
  · rw [hstored]
    exact hknown
  · rw [hstored]
    exact UInt32.not_lt.2 hallowed
  · rw [hstored, List.length_append, length_encode, hcount]
    omega
  · rw [hdirectory]
  · rw [hstored, ← hcount, ← length_encode h, List.drop_left]

/-! ### Encoding what was read -/

/-- The reserved bytes are those of the directory. -/
theorem blanked_append {front : Bytes} (hfront : front.length = 40) (rest : Bytes) :
    blanked (front ++ rest) = front ++ SectionHeader.blanked rest := by
  have hkeep : blanked front = front := by
    refine List.mapIdx_eq_iff.2 fun p => ?_
    by_cases hp : p < 40
    · have hfree : ¬ Reserved p := fun h => absurd h.1 (by omega)
      simp only [hfree, if_false, Option.map_id']
    · rw [List.getElem?_eq_none (by omega)]
      rfl
  have hshift : ∀ p, Reserved (p + 40) ↔ 22 ≤ p % 24 := by
    intro p
    rw [Reserved, Nat.add_sub_cancel]
    omega
  rw [blanked, List.mapIdx_append, ← blanked, hkeep, hfront]
  simp only [hshift]
  rfl

/-- Encoding what was read gives the bytes again, the reserved ones zeroed. -/
theorem encode_of_legible (hlegible : Legible maxSections bs) :
    encode (MainHeader.stored bs) (Opening.directory bs) =
      blanked (bs.take (40 + 24 * (MainHeader.stored bs).sectionCount.toNat)) := by
  have hlong := hlegible.long
  have hheader : (bs.take 40).length = 40 := by
    rw [List.length_take]
    omega
  have hsum : LittleEndian.encode 4 (MainHeader.stored bs).checksum.toNat = (bs.drop 4).take 4 := by
    rw [MainHeader.stored, SectionHeader.toNat_ofNat_field, SectionHeader.encode_field (by omega)]
  have hmain : (MainHeader.stored bs).encode = bs.take 40 := by
    have hencode := Opening.encode_stored hlegible.magic (by omega) (MainHeader.stored bs).checksum
    rw [hsum] at hencode
    rw [show 40 = 4 + (4 + 32) from rfl, List.take_add, List.take_add, List.drop_drop]
    exact hencode
  rw [encode, hmain, Opening.directory, SectionHeader.encode_firstOf _ (by
    rw [List.length_drop]
    omega), List.take_add, blanked_append hheader]

/-- What was read is told by its encoding. -/
theorem encode_inj {h' : MainHeader} {sections sections' : List SectionHeader}
    (hmagic : h.signature = MainHeader.magic) (hmagic' : h'.signature = MainHeader.magic)
    (hcount : sections.length = h.sectionCount.toNat)
    (hcount' : sections'.length = h'.sectionCount.toNat)
    (hsame : encode h sections = encode h' sections') : h = h' ∧ sections = sections' := by
  have hheader : h = h' := by
    rw [← MainHeader.stored_encode hmagic (sections.flatMap SectionHeader.encode),
      ← MainHeader.stored_encode hmagic' (sections'.flatMap SectionHeader.encode)]
    exact congrArg MainHeader.stored hsame
  subst hheader
  refine ⟨rfl, ?_⟩
  have hentries := List.append_cancel_left hsame
  have hback := SectionHeader.firstOf_flatMap_encode sections []
  rw [hentries, hcount, ← hcount'] at hback
  exact hback.symm.trans (SectionHeader.firstOf_flatMap_encode sections' [])

/-! ### Bytes that are read alike -/

theorem blanked_take_eq_iff {n : Nat} (hlong : 40 + 24 * n ≤ bs.length)
    (hlong' : 40 + 24 * n ≤ bs'.length) :
    blanked (bs.take (40 + 24 * n)) = blanked (bs'.take (40 + 24 * n)) ↔ Coincide n bs bs' := by
  constructor
  · intro hsame p hp hfree
    have hat := congrArg (·[p]?) hsame
    simp only [blanked, List.getElem?_mapIdx, List.getElem?_take, if_pos hp, if_neg hfree,
      Option.map_id'] at hat
    exact hat.symm
  · intro hsame
    refine List.ext_getElem? fun p => ?_
    simp only [blanked, List.getElem?_mapIdx, List.getElem?_take]
    by_cases hp : p < 40 + 24 * n
    · rw [if_pos hp, if_pos hp]
      by_cases hreserved : Reserved p
      · rw [List.getElem?_eq_getElem (show p < bs.length by omega),
          List.getElem?_eq_getElem (show p < bs'.length by omega)]
        simp only [if_pos hreserved, Option.map_some]
      · rw [hsame p hp hreserved]
    · rw [if_neg hp, if_neg hp]

/-- No byte of the main header is reserved. -/
theorem Coincide.take_forty {n : Nat} (hsame : Coincide n bs bs') : bs'.take 40 = bs.take 40 := by
  refine List.ext_getElem? fun p => ?_
  rw [List.getElem?_take, List.getElem?_take]
  by_cases hp : p < 40
  · rw [if_pos hp, if_pos hp]
    exact hsame p (by omega) fun h => absurd h.1 (by omega)
  · rw [if_neg hp, if_neg hp]

theorem Coincide.stored {n : Nat} (hsame : Coincide n bs bs') :
    MainHeader.stored bs' = MainHeader.stored bs := by
  rw [← Opening.stored_take (Nat.le_refl 40), hsame.take_forty,
    Opening.stored_take (Nat.le_refl 40)]

/-- Bytes that agree with a preamble are one too, if they are enough. -/
theorem Legible.of_coincide (hlegible : Legible maxSections bs)
    (hlong : 40 + 24 * (MainHeader.stored bs).sectionCount.toNat ≤ bs'.length)
    (hsame : Coincide (MainHeader.stored bs).sectionCount.toNat bs bs') :
    Legible maxSections bs' := by
  have hstored := hsame.stored
  have hmagic : bs'.take 3 = bs.take 3 := by
    have htake := congrArg (List.take 3) hsame.take_forty
    rwa [List.take_take, List.take_take] at htake
  refine ⟨hmagic.trans hlegible.magic, ?_, ?_, ?_⟩
  · rw [hstored]
    exact hlegible.known
  · rw [hstored]
    exact hlegible.allowed
  · rw [hstored]
    exact hlong

/-- Two preambles hold the same headers just when they agree. -/
theorem alike_iff {maxSections' : UInt32} (hlegible : Legible maxSections bs)
    (hlegible' : Legible maxSections' bs') :
    (MainHeader.stored bs = MainHeader.stored bs' ∧ Opening.directory bs = Opening.directory bs') ↔
      Coincide (MainHeader.stored bs).sectionCount.toNat bs bs' := by
  have hlong' := hlegible'.long
  constructor
  · rintro ⟨hstored, hdirectory⟩
    rw [← hstored] at hlong'
    refine (blanked_take_eq_iff hlegible.long hlong').1 ?_
    rw [← encode_of_legible hlegible, hstored, hdirectory, encode_of_legible hlegible']
  · intro hsame
    have hstored := hsame.stored
    rw [hstored] at hlong'
    refine encode_inj rfl rfl (Opening.length_directory bs) (Opening.length_directory bs') ?_
    rw [encode_of_legible hlegible, encode_of_legible hlegible', hstored]
    exact (blanked_take_eq_iff hlegible.long hlong').2 hsame

/-- Reading takes back any preamble that was encoded, and just its bytes. Encoding what was read
gives the bytes that were read, but for the reserved ones, which become zero. So two inputs that are
read are read alike just when they agree on the other bytes of the preamble; and an input that
agrees with one that is read is read too, if it is long enough. -/
theorem reading_inverts_encoding :
    (∀ (maxSections : UInt32) (h : MainHeader) (sections : List SectionHeader) (rest : Bytes),
      h.signature = MainHeader.magic → MainHeader.isKnownVersion h.version = true →
      sections.length = h.sectionCount.toNat → h.sectionCount ≤ maxSections →
      read maxSections (encode h sections ++ rest) =
          .ok ((h, { entries := sections.map Entry.ofStored, maxSections }), rest) ∧
        (encode h sections).length = 40 + 24 * sections.length) ∧
    (∀ maxSections bs h d rest, read maxSections bs = .ok ((h, d), rest) →
      ∃ consumed, bs = consumed ++ rest ∧ consumed.length = 40 + 24 * h.sectionCount.toNat ∧
        d.headers.length = h.sectionCount.toNat ∧ encode h d.headers = blanked consumed) ∧
    (∀ maxSections maxSections' bs bs' h h' d d' rest rest',
      read maxSections bs = .ok ((h, d), rest) → read maxSections' bs' = .ok ((h', d'), rest') →
      (h = h' ∧ d.headers = d'.headers ↔ Coincide h.sectionCount.toNat bs bs')) ∧
    ∀ maxSections bs bs' h d rest, read maxSections bs = .ok ((h, d), rest) →
      40 + 24 * h.sectionCount.toNat ≤ bs'.length →
      Coincide h.sectionCount.toNat bs bs' →
      ∃ rest', read maxSections bs' = .ok ((h, d), rest') := by
  refine ⟨?_, ?_, ?_, ?_⟩
  · intro maxSections h sections rest hmagic hknown hcount hallowed
    exact ⟨read_encode hmagic hknown hcount hallowed rest, length_encode h sections⟩
  · intro maxSections bs h d rest hread
    obtain ⟨hlegible, rfl, rfl, rfl⟩ := read_eq_ok_iff.1 hread
    refine ⟨_, (List.take_append_drop _ bs).symm, ?_, ?_, ?_⟩
    · rw [List.length_take, Nat.min_eq_left hlegible.long]
    · rw [Opening.headers_map_ofStored, Opening.length_directory]
    · rw [Opening.headers_map_ofStored]
      exact encode_of_legible hlegible
  · intro maxSections maxSections' bs bs' h h' d d' rest rest' hread hread'
    obtain ⟨hlegible, rfl, rfl, -⟩ := read_eq_ok_iff.1 hread
    obtain ⟨hlegible', rfl, rfl, -⟩ := read_eq_ok_iff.1 hread'
    rw [Opening.headers_map_ofStored, Opening.headers_map_ofStored]
    exact alike_iff hlegible hlegible'
  · intro maxSections bs bs' h d rest hread hlong hsame
    obtain ⟨hlegible, rfl, rfl, -⟩ := read_eq_ok_iff.1 hread
    have hlegible' := hlegible.of_coincide hlong hsame
    obtain ⟨hstored, hdirectory⟩ := (alike_iff hlegible hlegible').2 hsame
    refine ⟨_, read_eq_ok_iff.2 ⟨hlegible', hstored, ?_, rfl⟩⟩
    rw [hdirectory]

/-- For one, a preamble of one section, with two more bytes behind it; and one with other bytes in
the place of the reserved pair. -/
theorem reading_inverts_encoding_of_one_section :
    let h : MainHeader :=
      { signature := MainHeader.magic, ty := 0x42, checksum := 0x4fac01a4, fileSize := 66
        sectionCount := 1, version := 1, typeExt := .ofBytes 16 [3, 2, 1] }
    let s : SectionHeader :=
      { pointer := 64, csize := 2, size := 2, checksum := 0x16000f, ty := 5, flags := 8 }
    let d : Directory := { entries := [.ofStored s], maxSections := 1 }
    let bs := encode h [s] ++ [7, 8]
    let bs' := (encode h [s]).take 62 ++ [0xaa, 0xbb]
    h.signature = MainHeader.magic ∧ MainHeader.isKnownVersion h.version = true ∧
      [s].length = h.sectionCount.toNat ∧ h.sectionCount ≤ 1 ∧
      read 1 bs = .ok ((h, d), [7, 8]) ∧ (encode h [s]).length = 64 ∧
      (∃ consumed, bs = consumed ++ [7, 8] ∧ consumed.length = 64 ∧ d.headers.length = 1 ∧
        encode h d.headers = blanked consumed) ∧
      bs' ≠ bs.take 64 ∧ (∃ rest', read 1 bs' = .ok ((h, d), rest')) ∧
      (h = h ∧ d.headers = d.headers ↔ Coincide 1 bs bs') := by
  intro h s d bs bs'
  obtain ⟨hback, hagain, halike, hlike⟩ := reading_inverts_encoding
  obtain ⟨hread, hlength⟩ := hback 1 h [s] [7, 8] rfl rfl rfl (by decide)
  have hsame : Coincide 1 bs bs' := by
    rw [Coincide]
    decide +kernel
  obtain ⟨rest', hread'⟩ := hlike 1 bs bs' h d [7, 8] hread (by decide +kernel) hsame
  exact ⟨rfl, rfl, rfl, by decide, hread, hlength, hagain 1 bs h d [7, 8] hread, by decide +kernel,
    ⟨rest', hread'⟩, halike 1 1 bs bs' h h d d [7, 8] rest' hread hread'⟩

end SectionArchive.Preamble
