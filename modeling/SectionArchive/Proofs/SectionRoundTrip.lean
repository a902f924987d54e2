import Mathlib
import SectionArchive.Proofs.CodecRoundTrip
import SectionArchive.Proofs.HeaderFields
import SectionArchive.Section.Encoding
/-!
Packing a section and unpacking it. What packing records in the header is just what unpacking
checks, and clearing the packing bits below the threshold is told to both; so a packed section
unpacks to its payload, under any index and wherever it was placed.
-/

namespace SectionArchive

namespace Flags

theorem packing?_stored (flags : UInt8) : packing? (stored flags) = some none := by
  obtain ⟨⟨n, hn⟩⟩ := flags
  revert n
  decide +kernel

theorem checksum?_stored (flags : UInt8) : checksum? (stored flags) = checksum? flags := by
  obtain ⟨⟨n, hn⟩⟩ := flags
  revert n
  decide +kernel

def Valid (flags : UInt8) : Prop := (packing? flags).isSome ∧ (checksum? flags).isSome

def packing (flags : UInt8) : Option Method := (packing? flags).getD none

def kind (flags : UInt8) : Checksum.Kind := (checksum? flags).getD .none

theorem packing?_of_valid {flags : UInt8} (h : Valid flags) :
    packing? flags = some (packing flags) := by
  obtain ⟨p, hp⟩ := Option.isSome_iff_exists.1 h.1
  rw [packing, hp, Option.getD_some]

theorem checksum?_of_valid {flags : UInt8} (h : Valid flags) :
    checksum? flags = some (kind flags) := by
  obtain ⟨k, hk⟩ := Option.isSome_iff_exists.1 h.2
  rw [kind, hk, Option.getD_some]

/-- The flags a payload of `size` bytes is saved with: those asked for, but stored when it is
shorter than the threshold. -/
def effective (flags : UInt8) (threshold : Option UInt32) (size : Nat) : UInt8 :=
  if threshold.any (size < ·.toNat) then stored flags else flags

theorem valid_effective {flags : UInt8} (h : Valid flags) (threshold : Option UInt32) (size : Nat) :
    Valid (effective flags threshold size) := by
  simp only [effective]
  split
  · exact ⟨by rw [packing?_stored]; rfl, by rw [checksum?_stored]; exact h.2⟩
  · exact h

theorem packing_effective {flags : UInt8} (threshold : Option UInt32) (size : Nat) :
    packing (effective flags threshold size) =
      if threshold.any (size < ·.toNat) then none else packing flags := by
  simp only [effective]
  split
  · rw [packing, packing?_stored, Option.getD_some]
  · rfl

theorem kind_effective (flags : UInt8) (threshold : Option UInt32) (size : Nat) :
    kind (effective flags threshold size) = kind flags := by
  simp only [effective]
  split
  · rw [kind, checksum?_stored, kind]
  · rfl

theorem valid_select (packing : Option Method) (kind : Checksum.Kind) :
    Valid (select packing kind) :=
  ⟨by rw [packing?_select]; rfl, by rw [checksum?_select]; rfl⟩

end Flags

theorem SectionHeader.selection_of_valid {h : SectionHeader} (hflags : Flags.Valid h.flags)
    (index : Nat) : h.selection index = .ok (Flags.packing h.flags, Flags.kind h.flags) := by
  simp only [selection, Flags.packing?_of_valid hflags, Flags.checksum?_of_valid hflags]

theorem SectionHeader.valid_of_selection {h : SectionHeader} {index : Nat}
    {r : Option Method × Checksum.Kind} (hsel : h.selection index = .ok r) :
    Flags.Valid h.flags := by
  simp only [selection] at hsel
  split at hsel
  · next hp hk => exact ⟨by rw [hp]; rfl, by rw [hk]; rfl⟩
  · simp at hsel

namespace Section

/-! ### Packing -/

/-- A payload and the flags it is saved with. -/
structure Piece where
  ty : UInt8
  flags : UInt8
  raw : Bytes
deriving DecidableEq

namespace Piece

def packed (p : Piece) : Bytes := Codec.pack (Flags.packing p.flags) p.raw

def checksum (p : Piece) : UInt32 := Checksum.checksum (Flags.kind p.flags) p.raw

def header (p : Piece) (offset : Nat) : SectionHeader where
  pointer := UInt64.ofNat offset
  csize := UInt32.ofNat p.packed.length
  size := UInt32.ofNat p.raw.length
  checksum := p.checksum
  ty := p.ty
  flags := p.flags

structure Fits (p : Piece) : Prop where
  flags : Flags.Valid p.flags
  raw : p.raw.length < UInt32.size
  packed : p.packed.length < UInt32.size

end Piece

def piece (raw : Bytes) (h : SectionHeader) (threshold : Option UInt32) : Piece where
  ty := h.ty
  flags := Flags.effective h.flags threshold raw.length
  raw

def sealed (p : Piece) (h : SectionHeader) : SectionHeader :=
  { p.header 0 with pointer := h.pointer }

theorem settlePacking_eq (threshold : Option UInt32) (size : Nat) (method : Option Method)
    (h : SectionHeader) :
    settlePacking threshold size method h =
      .ok (if isBelow threshold size then none else method)
        { h with flags := Flags.effective h.flags threshold size } := by
  unfold settlePacking Flags.effective isBelow
  by_cases hbelow : threshold.any (size < ·.toNat) = true
  · rw [if_pos hbelow, if_pos hbelow, if_pos hbelow]
    rfl
  · rw [if_neg hbelow, if_neg hbelow, if_neg hbelow]
    rfl

theorem packed_piece (raw : Bytes) (h : SectionHeader) (threshold : Option UInt32) :
    (piece raw h threshold).packed =
      Codec.pack (if isBelow threshold raw.length then none else Flags.packing h.flags) raw := by
  rw [Piece.packed, piece, Flags.packing_effective, isBelow]

/-- A payload below the threshold is packed to itself. -/
theorem packed_piece_of_below {raw : Bytes} {threshold : Option UInt32}
    (hbelow : isBelow threshold raw.length = true) (h : SectionHeader) :
    (piece raw h threshold).packed = raw := by
  rw [packed_piece, if_pos hbelow]
  rfl

theorem encodeInPlace_of_error {h : SectionHeader} {index : Nat} {e : Error}
    (hselection : h.selection index = .error e) (raw : Bytes) (threshold : Option UInt32) :
    encodeInPlace index raw threshold h = .error e h := by
  simp only [encodeInPlace, bind, EStateM.bind, get, getThe, MonadStateOf.get, EStateM.get,
    hselection]
  rfl

/-- Packing in place, refusal by refusal. The flags change before the packer runs, but only where it
cannot fail any more. -/
theorem encodeInPlace_of_valid {h : SectionHeader} (hflags : Flags.Valid h.flags) (index : Nat)
    (raw : Bytes) (threshold : Option UInt32) :
    encodeInPlace index raw threshold h =
      if UInt32.size ≤ raw.length then .error (.sectionIo (.payloadTooLong index raw.length)) h
      else if UInt32.size ≤ (piece raw h threshold).packed.length then
        .error (.deflateTooLong index) h
      else .ok (piece raw h threshold).packed (sealed (piece raw h threshold) h) := by
  have hselection := SectionHeader.selection_of_valid hflags index
  have hsealed : sealHeader { h with flags := Flags.effective h.flags threshold raw.length }
      (Flags.kind h.flags) raw (piece raw h threshold).packed = sealed (piece raw h threshold) h := by
    simp only [sealHeader, sealed, Piece.header, Piece.checksum, piece, Flags.kind_effective]
  have hselected : (ofExcept (.ok (Flags.packing h.flags, Flags.kind h.flags)) :
      EStateM Error SectionHeader (Option Method × Checksum.Kind)) h =
        .ok (Flags.packing h.flags, Flags.kind h.flags) h := rfl
  simp only [encodeInPlace, bind, EStateM.bind, get, getThe, MonadStateOf.get, EStateM.get,
    hselection, hselected, Codec.compress_eq]
  by_cases hraw : UInt32.size ≤ raw.length
  · simp only [if_pos hraw]
    rfl
  · simp only [if_neg hraw, EStateM.bind, settlePacking_eq, ← packed_piece]
    by_cases hpacked : UInt32.size ≤ (piece raw h threshold).packed.length
    · have habove : ¬ isBelow threshold raw.length = true := by
        intro hbelow
        rw [packed_piece_of_below hbelow] at hpacked
        exact hraw hpacked
      have hkeeps : Flags.effective h.flags threshold raw.length = h.flags := if_neg habove
      simp only [if_pos hpacked, hkeeps]
      rfl
    · simp only [if_neg hpacked, ← hsealed]
      rfl

theorem encode_of_valid {h : SectionHeader} (hflags : Flags.Valid h.flags) (index : Nat)
    (raw : Bytes) (threshold : Option UInt32) :
    encode index raw h threshold =
      if UInt32.size ≤ raw.length then .error (.sectionIo (.payloadTooLong index raw.length))
      else if UInt32.size ≤ (piece raw h threshold).packed.length then
        .error (.deflateTooLong index)
      else .ok ((piece raw h threshold).packed, sealed (piece raw h threshold) h) := by
  rw [encode, encodeInPlace_of_valid hflags]
  by_cases hraw : UInt32.size ≤ raw.length
  · simp only [if_pos hraw]
  · by_cases hpacked : UInt32.size ≤ (piece raw h threshold).packed.length
    · simp only [if_neg hraw, if_pos hpacked]
    · simp only [if_neg hraw, if_neg hpacked]

/-- Packing succeeds for what fits, and makes the piece. -/
theorem encode_eq_ok_iff {index : Nat} {raw : Bytes} {h : SectionHeader} {threshold : Option UInt32}
    {r : Bytes × SectionHeader} :
    encode index raw h threshold = .ok r ↔
      Flags.Valid h.flags ∧ (piece raw h threshold).Fits ∧
        r = ((piece raw h threshold).packed, sealed (piece raw h threshold) h) := by
  constructor
  · intro hok
    have hflags : Flags.Valid h.flags := by
      cases hsel : h.selection index with
      | error e => simp [encode, encodeInPlace_of_error hsel] at hok
      | ok r => exact SectionHeader.valid_of_selection hsel
    rw [encode_of_valid hflags] at hok
    split at hok
    · simp at hok
    · next hraw =>
      split at hok
      · simp at hok
      · next hpacked =>
        exact ⟨hflags, ⟨Flags.valid_effective hflags _ _, Nat.lt_of_not_le hraw,
          Nat.lt_of_not_le hpacked⟩, (Except.ok.inj hok).symm⟩
  · rintro ⟨hflags, hfits, rfl⟩
    have hraw : ¬ UInt32.size ≤ raw.length := Nat.not_le.2 hfits.raw
    rw [encode_of_valid hflags, if_neg hraw, if_neg (Nat.not_le.2 hfits.packed)]

/-! ### Unpacking -/

theorem check_of_match {index : Nat} {kind : Checksum.Kind} {expected actual : UInt32}
    (hmatch : kind = .none ∨ expected = actual) : check index kind expected actual = .ok () := by
  refine if_neg ?_
  rintro ⟨hkind, hne⟩
  exact hmatch.elim hkind hne

theorem check_of_mismatch {index : Nat} {kind : Checksum.Kind} {expected actual : UInt32}
    (hkind : kind ≠ .none) (hne : expected ≠ actual) :
    check index kind expected actual = .error (.checksum (.payload index) expected actual) :=
  if_pos ⟨hkind, hne⟩

/-- A payload is handed out when it unpacks to its size and its checksum matches. -/
theorem decode_eq_ok_iff {index : Nat} {h : SectionHeader} {packed raw : Bytes} :
    decode index h packed = .ok raw ↔
      Flags.Valid h.flags ∧
        Codec.decompress (Flags.packing h.flags) packed h.size.toNat = .ok raw ∧
        (Flags.kind h.flags = .none ∨ h.checksum = Checksum.checksum (Flags.kind h.flags) raw) := by
  constructor
  · intro hok
    have hflags : Flags.Valid h.flags := by
      cases hsel : h.selection index with
      | error e => simp [decode, hsel, bind, Except.bind] at hok
      | ok r => exact SectionHeader.valid_of_selection hsel
    simp only [decode, SectionHeader.selection_of_valid hflags, bind, Except.bind] at hok
    refine ⟨hflags, ?_⟩
    split at hok
    · simp [throw, throwThe, MonadExceptOf.throw] at hok
    · next raw' hraw =>
      by_cases hmatch : Flags.kind h.flags = .none ∨
          h.checksum = Checksum.checksum (Flags.kind h.flags) raw'
      · simp only [check_of_match hmatch] at hok
        obtain rfl : raw' = raw := Except.ok.inj hok
        exact ⟨hraw, hmatch⟩
      · obtain ⟨hkind, hne⟩ := not_or.1 hmatch
        simp only [check_of_mismatch hkind hne] at hok
        cases hok
  · rintro ⟨hflags, hraw, hsum⟩
    simp only [decode, SectionHeader.selection_of_valid hflags, bind, Except.bind, hraw,
      check_of_match hsum]
    rfl

/-- A packed piece is unpacked to its payload, by any header that has its numbers. -/
theorem decode_piece {p : Piece} (hfits : p.Fits) {h : SectionHeader} (hflags : h.flags = p.flags)
    (hsize : h.size = UInt32.ofNat p.raw.length) (hsum : h.checksum = p.checksum) (index : Nat) :
    decode index h p.packed = .ok p.raw := by
  have hlength : h.size.toNat = p.raw.length := by
    rw [hsize, UInt32.toNat_ofNat', Nat.mod_eq_of_lt hfits.raw]
  have hunpack := Delivery.unpack_pack (Flags.packing p.flags)
    (Nat.lt_trans hfits.raw (show UInt32.size < 2 ^ 61 by decide))
  rw [decode_eq_ok_iff, hflags, hlength]
  refine ⟨hfits.flags, ?_, .inr hsum⟩
  rw [Piece.packed, Codec.decompress_eq hunpack, if_neg (Nat.lt_irrefl _),
    if_neg (Nat.lt_irrefl _)]

end Section

end SectionArchive
