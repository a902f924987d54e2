import Mathlib
import SectionArchive.Proofs.Opening
import SectionArchive.Proofs.SectionRoundTrip
/-!
What packing in place does to a header. On success it sets the sizes and the checksum, and takes the
packing bits from the flags of a payload below the threshold; the header is then all that unpacking
needs. On failure it leaves the header alone, although the flags are set before the packer runs:
below the threshold nothing that comes after them can fail.
-/

namespace SectionArchive

namespace Flags

theorem valid_iff (flags : UInt8) : Valid flags ↔ flags &&& 0x3 ≠ 0x3 ∧ flags &&& 0xC ≠ 0xC := by
  rw [Valid, Option.isSome_iff_ne_none, Option.isSome_iff_ne_none, ne_eq, ne_eq,
    packing?_eq_none_iff, checksum?_eq_none_iff]

theorem packing_eq_none {flags : UInt8} (hnone : flags &&& 0x3 = 0) : packing flags = none := by
  rw [packing, (packing?_eq_stored_iff flags).2 hnone, Option.getD_some]

end Flags

namespace Section

variable {h : SectionHeader} {raw : Bytes} {threshold : Option UInt32}

theorem sealed_piece (raw : Bytes) (h : SectionHeader) (threshold : Option UInt32) :
    sealed (piece raw h threshold) h =
      { h with
        size := UInt32.ofNat raw.length
        csize := UInt32.ofNat (piece raw h threshold).packed.length
        checksum := Checksum.checksum (Flags.kind h.flags) raw
        flags := if threshold.any (raw.length < ·.toNat) then h.flags &&& 0xFC else h.flags } := by
  rw [sealed, Piece.header, Piece.checksum, piece, Flags.kind_effective]
  rfl

/-- A payload whose flags ask for no packing is packed to itself. -/
theorem packed_piece_of_stored
    (hstored : (sealed (piece raw h threshold) h).flags &&& 0x3 = 0) :
    (piece raw h threshold).packed = raw := by
  have hnone : Flags.packing (piece raw h threshold).flags = none := Flags.packing_eq_none hstored
  rw [Piece.packed, hnone]
  rfl

theorem fits_piece (hflags : Flags.Valid h.flags) (hraw : raw.length < UInt32.size)
    (hpacked : (piece raw h threshold).packed.length < UInt32.size) :
    (piece raw h threshold).Fits :=
  ⟨Flags.valid_effective hflags _ _, hraw, hpacked⟩

/-- Packing in place that fails has not touched the header. -/
theorem encodeInPlace_keeps {index : Nat} {e : Error} {h' : SectionHeader}
    (herror : encodeInPlace index raw threshold h = .error e h') : h' = h := by
  cases hselection : h.selection index with
  | error e' =>
    rw [encodeInPlace_of_error hselection] at herror
    cases herror
    rfl
  | ok r =>
    rw [encodeInPlace_of_valid (SectionHeader.valid_of_selection hselection)] at herror
    split_ifs at herror
    · cases herror
      rfl
    · cases herror
      rfl

/-- Packing in place, under flags with at most one bit of each pair and for sizes that can be
written down: it succeeds, changes in the header just what it packed, and what it packed is unpacked
by that header alone. Whenever it fails it leaves the header as it was. -/
theorem packing_in_place_is_undone (index : Nat) (raw : Bytes) (h : SectionHeader)
    (threshold : Option UInt32) :
    (h.flags &&& 0x3 ≠ 0x3 → h.flags &&& 0xC ≠ 0xC → raw.length < UInt32.size →
      (piece raw h threshold).packed.length < UInt32.size →
      ∃ packed h', encodeInPlace index raw threshold h = .ok packed h' ∧
        h' = { h with
          size := UInt32.ofNat raw.length
          csize := UInt32.ofNat packed.length
          checksum := Checksum.checksum (Flags.kind h.flags) raw
          flags :=
            if threshold.any (raw.length < ·.toNat) then h.flags &&& 0xFC else h.flags } ∧
        h'.size.toNat = raw.length ∧ h'.csize.toNat = packed.length ∧
        (h'.flags &&& 0x3 = 0 → packed = raw ∧ h'.csize = h'.size) ∧
        decode index h' packed = .ok raw) ∧
      ∀ e h', encodeInPlace index raw threshold h = .error e h' → h' = h := by
  refine ⟨fun hpacking hsum hraw hpacked => ?_, fun e h' herror => encodeInPlace_keeps herror⟩
  have hflags : Flags.Valid h.flags := (Flags.valid_iff h.flags).2 ⟨hpacking, hsum⟩
  refine ⟨(piece raw h threshold).packed, sealed (piece raw h threshold) h, ?_,
    sealed_piece raw h threshold, ?_, ?_, ?_, ?_⟩
  · rw [encodeInPlace_of_valid hflags, if_neg (Nat.not_le.2 hraw), if_neg (Nat.not_le.2 hpacked)]
  · exact UInt32.toNat_ofNat_of_lt' hraw
  · exact UInt32.toNat_ofNat_of_lt' hpacked
  · intro hstored
    have hsame := packed_piece_of_stored hstored
    refine ⟨hsame, ?_⟩
    rw [sealed_piece, hsame]
  · exact decode_piece (fits_piece hflags hraw hpacked) rfl rfl rfl index

/-- For one, three bytes below the threshold, under flags that ask for packing; and flags that
contradict themselves. -/
theorem packing_in_place_is_undone_below_threshold :
    let h : SectionHeader :=
      { pointer := 90, csize := 8, size := 9, checksum := 7, ty := 3, flags := 0xF9 }
    let bad : SectionHeader := { h with flags := 0x3 }
    (h.flags &&& 0x3 ≠ 0x3 ∧ h.flags &&& 0xC ≠ 0xC ∧ ([1, 2, 3] : Bytes).length < UInt32.size ∧
      (piece [1, 2, 3] h (some 4)).packed.length < UInt32.size ∧
      ∃ packed h', encodeInPlace 6 [1, 2, 3] (some 4) h = .ok packed h' ∧
        h' = { pointer := 90, csize := UInt32.ofNat packed.length, size := 3, checksum := 0xA0006
               ty := 3, flags := 0xF8 } ∧
        h'.size.toNat = 3 ∧ h'.csize.toNat = packed.length ∧
        (h'.flags &&& 0x3 = 0 → packed = [1, 2, 3] ∧ h'.csize = h'.size) ∧
        decode 6 h' packed = .ok [1, 2, 3]) ∧
      ∃ e h', encodeInPlace 6 [1, 2, 3] (some 4) bad = .error e h' ∧ h' = bad := by
  intro h bad
  have hpacking : h.flags &&& 0x3 ≠ 0x3 := by decide
  have hsum : h.flags &&& 0xC ≠ 0xC := by decide
  have hraw : ([1, 2, 3] : Bytes).length < UInt32.size := by decide
  have hpacked : (piece [1, 2, 3] h (some 4)).packed.length < UInt32.size := by decide
  have hkind : Checksum.checksum (Flags.kind h.flags) [1, 2, 3] = 0xA0006 := by decide
  have hbelow : (if (some (4 : UInt32)).any (([1, 2, 3] : Bytes).length < ·.toNat) then
      h.flags &&& 0xFC else h.flags) = 0xF8 := by decide
  have hdone := (packing_in_place_is_undone 6 [1, 2, 3] h (some 4)).1 hpacking hsum hraw hpacked
  rw [hkind, hbelow] at hdone
  have hselection : bad.selection 6 = .error (.badFlags 6 0x3) := by decide
  have herror := encodeInPlace_of_error hselection [1, 2, 3] (some 4)
  exact ⟨⟨hpacking, hsum, hraw, hpacked, hdone⟩, _, _, herror,
    (packing_in_place_is_undone 6 [1, 2, 3] bad (some 4)).2 _ _ herror⟩

end Section

end SectionArchive
