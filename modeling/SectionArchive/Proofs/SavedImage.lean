import Mathlib
import SectionArchive.Container.Save
import SectionArchive.Proofs.Opening
import SectionArchive.Proofs.SectionReading
/-!
The image of a list of pieces. It is told from the container's type and the pieces alone: the
payloads lie behind the directory in order and without gaps. Laying out packed sections gives this
image whatever their headers said before, every place in it holds its piece, and opening it finds
just its headers.
-/

namespace SectionArchive

open Section (Piece)

namespace Container

def pieceHeaders : (offset : Nat) → List Piece → List SectionHeader
  | _, [] => []
  | offset, p :: rest => p.header offset :: pieceHeaders (offset + p.packed.length) rest

def piecesLength (pieces : List Piece) : Nat := (pieces.map fun p => p.packed.length).sum

def plainHeader (ty : UInt8) (version : UInt32) (typeExt : FixedBytes 16) (pieces : List Piece) :
    MainHeader where
  signature := MainHeader.magic
  ty
  checksum := 0
  fileSize := UInt64.ofNat (40 + 24 * pieces.length + piecesLength pieces)
  sectionCount := UInt32.ofNat pieces.length
  version
  typeExt

def imageOf (ty : UInt8) (version : UInt32) (typeExt : FixedBytes 16) (pieces : List Piece) :
    Image :=
  let h := plainHeader ty version typeExt pieces
  let headers := pieceHeaders (40 + 24 * pieces.length) pieces
  let kind := if version = 1 then .weak else .crc32
  let sum := Checksum.checksum kind (h.encode ++ headers.flatMap SectionHeader.encode)
  { header := { h with checksum := sum }, headers, payloads := pieces.map Piece.packed }

/-! ### Laying out -/

/-- A packed section is this piece, behind some earlier header. -/
def IsPiece (s : Bytes × SectionHeader) (p : Piece) : Prop :=
  p.Fits ∧ ∃ h, s = (p.packed, Section.sealed p h)

theorem toNat_csize {p : Piece} (h : p.Fits) (offset : Nat) :
    (p.header offset).csize.toNat = p.packed.length := by
  rw [Piece.header, UInt32.toNat_ofNat', Nat.mod_eq_of_lt h.packed]

theorem layOut_eq_pieceHeaders {sections : List (Bytes × SectionHeader)} {pieces : List Piece}
    (h : List.Forall₂ IsPiece sections pieces) (offset : Nat) :
    layOut offset (sections.map Prod.snd) = pieceHeaders offset pieces := by
  induction h generalizing offset with
  | nil => rfl
  | @cons s p sections pieces hpiece _ ih =>
    obtain ⟨hfits, header, rfl⟩ := hpiece
    have hcsize : (Section.sealed p header).csize.toNat = p.packed.length := toNat_csize hfits 0
    simp only [List.map_cons, layOut, pieceHeaders, hcsize, ih]
    rfl

theorem packedLength_pieceHeaders {pieces : List Piece} (h : ∀ p ∈ pieces, p.Fits) (offset : Nat) :
    packedLength (pieceHeaders offset pieces) = piecesLength pieces := by
  induction pieces generalizing offset with
  | nil => rfl
  | cons p rest ih =>
    have hrest := ih (fun q hq => h q (List.mem_cons_of_mem _ hq)) (offset + p.packed.length)
    rw [pieceHeaders, packedLength, toNat_csize (h p (List.mem_cons_self ..)), hrest]
    simp only [piecesLength, List.map_cons, List.sum_cons]

theorem map_fst_of_isPiece {sections : List (Bytes × SectionHeader)} {pieces : List Piece}
    (h : List.Forall₂ IsPiece sections pieces) :
    sections.map Prod.fst = pieces.map Piece.packed := by
  induction h with
  | nil => rfl
  | cons hpiece _ ih =>
    obtain ⟨-, header, rfl⟩ := hpiece
    simp only [List.map_cons, ih]

theorem fits_of_isPiece {sections : List (Bytes × SectionHeader)} {pieces : List Piece}
    (h : List.Forall₂ IsPiece sections pieces) : ∀ p ∈ pieces, p.Fits := by
  induction h with
  | nil => simp
  | cons hpiece _ ih =>
    intro p hp
    rcases List.mem_cons.1 hp with rfl | hp
    · exact hpiece.1
    · exact ih p hp

/-- Laying out packed pieces gives their image, whatever their headers said before. -/
theorem ofSections_eq_imageOf {h : MainHeader} (hmagic : h.signature = MainHeader.magic)
    {sections : List (Bytes × SectionHeader)} {pieces : List Piece}
    (hall : List.Forall₂ IsPiece sections pieces) :
    Image.ofSections h sections = imageOf h.ty h.version h.typeExt pieces := by
  have hcount := hall.length_eq
  have hstart : MainHeader.payloadStart pieces.length = 40 + 24 * pieces.length := by
    simp only [MainHeader.payloadStart, MainHeader.width, SectionHeader.width, Nat.mul_comm 24]
  simp only [Image.ofSections, layOut_eq_pieceHeaders hall, map_fst_of_isPiece hall, hcount, hstart,
    packedLength_pieceHeaders (fits_of_isPiece hall), imageOf, MainHeader.computeChecksum_eq,
    MainHeader.checksumKind, plainHeader, hmagic]

/-! ### Reading the image -/

variable {ty : UInt8} {version : UInt32} {typeExt : FixedBytes 16} {pieces : List Piece}

theorem length_pieceHeaders (offset : Nat) (pieces : List Piece) :
    (pieceHeaders offset pieces).length = pieces.length := by
  induction pieces generalizing offset with
  | nil => rfl
  | cons p rest ih => rw [pieceHeaders, List.length_cons, ih, List.length_cons]

theorem length_flatten_packed (pieces : List Piece) :
    (pieces.map Piece.packed).flatten.length = piecesLength pieces := by
  rw [List.length_flatten, List.map_map, piecesLength]
  rfl

theorem length_bytes_imageOf :
    (imageOf ty version typeExt pieces).bytes.length =
      40 + 24 * pieces.length + piecesLength pieces := by
  simp only [Image.bytes, imageOf, List.length_append, MainHeader.length_encode, MainHeader.width,
    SectionHeader.length_flatMap_encode, length_pieceHeaders, length_flatten_packed]

/-- The piece at `i` lies behind the directory and the pieces before it. -/
theorem getElem?_pieceHeaders (offset i : Nat) (pieces : List Piece) :
    (pieceHeaders offset pieces)[i]? =
      pieces[i]?.map fun p => p.header (offset + piecesLength (pieces.take i)) := by
  induction pieces generalizing offset i with
  | nil => rfl
  | cons p rest ih =>
    cases i with
    | zero => rfl
    | succ i =>
      rw [pieceHeaders, List.getElem?_cons_succ, ih, List.getElem?_cons_succ, List.take_succ_cons]
      simp only [piecesLength, List.map_cons, List.sum_cons, Nat.add_assoc]

/-- The header of a piece that is stored where the header says. -/
structure Places (content : Bytes) (s : SectionHeader) (p : Piece) : Prop where
  stored : Section.Stored content s p.raw
  ty : s.ty = p.ty
  flags : s.flags = p.flags

/-- A packed piece is stored where its header says. -/
theorem places_header {p : Piece} (hfits : p.Fits) {before : Bytes} (after : Bytes)
    (hplace : before.length < UInt64.size) :
    Places (before ++ (p.packed ++ after)) (p.header before.length) p := by
  have hpointer : (p.header before.length).pointer.toNat = before.length := by
    rw [Piece.header, UInt64.toNat_ofNat', Nat.mod_eq_of_lt hplace]
  have hcsize := toNat_csize hfits before.length
  have hpacked :
      Section.place (before ++ (p.packed ++ after)) (p.header before.length) = p.packed := by
    rw [Section.place, hpointer, hcsize, List.drop_left' rfl, List.take_left' rfl]
  refine ⟨⟨?_, fun index => ?_⟩, rfl, rfl⟩
  · rw [hpointer, hcsize, List.length_append, List.length_append]
    omega
  · rw [Section.contained, hpacked, if_neg (not_not.2 hcsize.symm)]
    exact Section.decode_piece hfits rfl rfl rfl index

/-- Behind any bytes that were written before, each packed piece is stored where its header says. -/
theorem places_pieceHeaders {content : Bytes} (hfits : ∀ p ∈ pieces, p.Fits)
    (hcontent : content.length < UInt64.size) {before : Bytes}
    (h : content = before ++ (pieces.map Piece.packed).flatten) :
    List.Forall₂ (Places content) (pieceHeaders before.length pieces) pieces := by
  induction pieces generalizing before with
  | nil => exact .nil
  | cons p rest ih =>
    rw [List.map_cons, List.flatten_cons] at h
    have hplace : before.length < UInt64.size := by
      rw [h, List.length_append] at hcontent
      omega
    have hrest := ih (fun q hq => hfits q (List.mem_cons_of_mem _ hq))
      (show content = (before ++ p.packed) ++ (rest.map Piece.packed).flatten by
        rw [h, List.append_assoc])
    rw [List.length_append] at hrest
    refine .cons ?_ hrest
    rw [h]
    exact places_header (hfits p (List.mem_cons_self ..)) _ hplace

/-- All pieces of an image are stored in it where its headers say. -/
theorem places_imageOf (hfits : ∀ p ∈ pieces, p.Fits)
    (hlength : (imageOf ty version typeExt pieces).bytes.length < UInt64.size) :
    List.Forall₂ (Places (imageOf ty version typeExt pieces).bytes)
      (imageOf ty version typeExt pieces).headers pieces := by
  have hstart : ((imageOf ty version typeExt pieces).header.encode ++
      (imageOf ty version typeExt pieces).headers.flatMap SectionHeader.encode).length =
        40 + 24 * pieces.length := by
    simp only [imageOf, List.length_append, MainHeader.length_encode, MainHeader.width,
      SectionHeader.length_flatMap_encode, length_pieceHeaders]
  have hall := places_pieceHeaders hfits hlength rfl
  rwa [hstart] at hall

/-! ### Opening the image -/

/-- A piece's header is not refused in a container that reaches behind the piece. -/
theorem refusal?_header {p : Piece} (hfits : p.Fits) {offset : Nat} {fileSize : UInt64}
    (hplace : offset + p.packed.length ≤ fileSize.toNat) (index : Nat) :
    Opening.refusal? fileSize index (p.header offset) = none := by
  have hpointer : (p.header offset).pointer.toNat = offset := by
    rw [Piece.header, UInt64.toNat_ofNat', Nat.mod_eq_of_lt (by have := fileSize.toNat_lt; omega)]
  have hpacking := Flags.packing?_of_valid hfits.flags
  have hkind := Flags.checksum?_of_valid hfits.flags
  have hstored : p.flags &&& 0x3 = 0 → (p.header offset).csize = (p.header offset).size := by
    intro h
    rw [← Flags.packing?_eq_stored_iff, hpacking, Option.some.injEq] at h
    simp only [Piece.header, Piece.packed, h, Codec.pack]
  have hflags : ¬ (p.flags &&& 0x3 = 0x3 ∨ p.flags &&& 0xC = 0xC ∨
      p.flags &&& 0x3 = 0 ∧ (p.header offset).csize ≠ (p.header offset).size) := by
    rw [← Flags.packing?_eq_none_iff, ← Flags.checksum?_eq_none_iff, hpacking, hkind]
    rintro (h | h | ⟨h, hne⟩)
    · cases h
    · cases h
    · exact hne (hstored h)
  have hsame : (p.header offset).flags = p.flags := rfl
  rw [Opening.refusal?, hsame, if_neg hflags, hpointer, toNat_csize hfits, if_neg (by omega)]

theorem findSome?_refusal?_pieceHeaders (hfits : ∀ p ∈ pieces, p.Fits) {fileSize : UInt64}
    (offset : Nat) (hplace : offset + piecesLength pieces ≤ fileSize.toNat) (index : Nat) :
    ((pieceHeaders offset pieces).zipIdx index).findSome?
      (fun p => Opening.refusal? fileSize p.2 p.1) = none := by
  induction pieces generalizing offset index with
  | nil => rfl
  | cons p rest ih =>
    simp only [piecesLength, List.map_cons, List.sum_cons] at hplace
    rw [pieceHeaders, List.zipIdx_cons, List.findSome?_cons,
      refusal?_header (hfits p (List.mem_cons_self ..)) (by omega)]
    exact ih (fun q hq => hfits q (List.mem_cons_of_mem _ hq)) _
      (by simp only [piecesLength]; omega) _

theorem bytes_imageOf :
    (imageOf ty version typeExt pieces).bytes =
      (imageOf ty version typeExt pieces).header.encode ++
        ((imageOf ty version typeExt pieces).headers.flatMap SectionHeader.encode ++
          (imageOf ty version typeExt pieces).payloads.flatten) :=
  List.append_assoc ..

theorem stored_imageOf :
    MainHeader.stored (imageOf ty version typeExt pieces).bytes =
      (imageOf ty version typeExt pieces).header := by
  rw [bytes_imageOf]
  exact MainHeader.stored_encode rfl _

theorem toNat_sectionCount_imageOf (hcount : pieces.length < UInt32.size) :
    (imageOf ty version typeExt pieces).header.sectionCount.toNat = pieces.length := by
  simp only [imageOf, plainHeader, UInt32.toNat_ofNat', Nat.mod_eq_of_lt hcount]

theorem toNat_fileSize_imageOf
    (hlength : (imageOf ty version typeExt pieces).bytes.length < UInt64.size) :
    (imageOf ty version typeExt pieces).header.fileSize.toNat =
      (imageOf ty version typeExt pieces).bytes.length := by
  rw [length_bytes_imageOf] at hlength ⊢
  simp only [imageOf, plainHeader, UInt64.toNat_ofNat']
  exact Nat.mod_eq_of_lt hlength

/-- The directory that is found in an image is the one it was made with. -/
theorem directory_imageOf (hcount : pieces.length < UInt32.size) :
    Opening.directory (imageOf ty version typeExt pieces).bytes =
      (imageOf ty version typeExt pieces).headers := by
  have hlength : (imageOf ty version typeExt pieces).headers.length = pieces.length :=
    length_pieceHeaders ..
  have hwidth : (imageOf ty version typeExt pieces).header.encode.length = 40 :=
    MainHeader.length_encode _
  rw [Opening.directory, stored_imageOf, toNat_sectionCount_imageOf hcount, ← hlength,
    bytes_imageOf, List.drop_left' hwidth]
  exact SectionHeader.firstOf_flatMap_encode ..

theorem recomputed_imageOf (hcount : pieces.length < UInt32.size) :
    Opening.recomputed (imageOf ty version typeExt pieces).bytes =
      (imageOf ty version typeExt pieces).header.checksum := by
  rw [Opening.recomputed, stored_imageOf, directory_imageOf hcount]
  rfl

/-- An image opens to a container with just its headers, unless there are more than allowed. -/
theorem verdict_imageOf (hversion : MainHeader.isKnownVersion version = true)
    (hfits : ∀ p ∈ pieces, p.Fits)
    (hlength : (imageOf ty version typeExt pieces).bytes.length < UInt64.size)
    {maxSections : UInt32} (hcount : pieces.length ≤ maxSections.toNat) :
    Opening.verdict maxSections (imageOf ty version typeExt pieces).bytes =
      .ok ((imageOf ty version typeExt pieces).header,
        (imageOf ty version typeExt pieces).headers) := by
  have hsmall : pieces.length < UInt32.size := Nat.lt_of_le_of_lt hcount maxSections.toNat_lt
  have hall := @length_bytes_imageOf ty version typeExt pieces
  have hletters : (imageOf ty version typeExt pieces).bytes.take 3 = [0x42, 0x50, 0x58] := rfl
  have hknown : ¬ ((imageOf ty version typeExt pieces).header.version ≠ 1 ∧
      (imageOf ty version typeExt pieces).header.version ≠ 2) :=
    (Opening.isKnownVersion_iff _).1 hversion
  have hallowed : ¬ maxSections < (imageOf ty version typeExt pieces).header.sectionCount := by
    rw [UInt32.lt_iff_toNat_lt, toNat_sectionCount_imageOf hsmall]
    omega
  have hrefusal : (imageOf ty version typeExt pieces).headers.zipIdx.findSome?
      (fun p => Opening.refusal? (imageOf ty version typeExt pieces).header.fileSize p.2 p.1) =
        none := by
    refine findSome?_refusal?_pieceHeaders hfits _ ?_ 0
    rw [toNat_fileSize_imageOf hlength, hall]
  simp only [Opening.verdict, stored_imageOf, directory_imageOf hsmall, recomputed_imageOf hsmall,
    hletters, toNat_sectionCount_imageOf hsmall, ne_eq, not_true_eq_false, if_false, if_neg hknown,
    if_neg hallowed, hrefusal]
  rw [if_neg (by omega), if_neg (by omega), if_neg (by omega), if_neg (by omega)]

end Container

end SectionArchive
