import Mathlib
import SectionArchive.Proofs.FlippedHeaders
/-!
Damage to a few neighbouring bytes. Up to four bytes that go into the register of CRC-32 one after
the other amount to one word: it is added to the register, and the sum is shifted once for each of
their bits. Neither loses anything, so other bytes in their place lead to another register, and what
follows keeps the two apart. In particular no flipped bit passes, wherever it is.
-/

namespace SectionArchive

namespace Crc32

/-- Up to four bytes are taken up like one word with all their bits. -/
theorem foldl_update_eq {bs : Bytes} (h : bs.length ≤ 4) (r : UInt32) :
    bs.foldl update r =
      Nat.repeat shift (8 * bs.length) (r ^^^ UInt32.ofNat (LittleEndian.decode bs)) := by
  induction bs generalizing r with
  | nil => exact UInt32.xor_zero.symm
  | cons b rest ih =>
    rw [List.length_cons] at h
    have hlt := LittleEndian.decode_lt rest
    have hpow : 256 ^ rest.length ≤ 256 ^ 3 := Nat.pow_le_pow_right (by decide) (by omega)
    have hsize : 2 ^ 8 * LittleEndian.decode rest < UInt32.size := by
      rw [show UInt32.size = 2 ^ 8 * 256 ^ 3 from rfl]
      omega
    -- The later bytes are added when their turn comes, or above the first one before its shifts.
    calc (b :: rest).foldl update r
        = rest.foldl update (update r b) := rfl
      _ = Nat.repeat shift (8 * rest.length)
            (update r b ^^^ UInt32.ofNat (LittleEndian.decode rest)) := ih (by omega) _
      _ = Nat.repeat shift (8 + 8 * rest.length)
            (r ^^^ UInt32.ofNat (b.toNat + 2 ^ 8 * LittleEndian.decode rest)) := by
          rw [update_eq, ← UInt32.ofNat_uInt8ToNat, repeat_shift_xor_ofNat b.toNat_lt hsize]
      _ = Nat.repeat shift (8 * (b :: rest).length)
            (r ^^^ UInt32.ofNat (LittleEndian.decode (b :: rest))) := by
          rw [LittleEndian.decode, List.length_cons, Nat.mul_succ, Nat.add_comm 8,
            show 2 ^ 8 = 256 from rfl]

/-- No two words of up to four bytes move the register to the same. -/
theorem eq_of_foldl_update_eq {x y : Bytes} (hlength : x.length = y.length) (hx : x.length ≤ 4)
    {r : UInt32} (h : x.foldl update r = y.foldl update r) : x = y := by
  have hsize : ∀ bs : Bytes, bs.length ≤ 4 → LittleEndian.decode bs < UInt32.size := by
    intro bs hbs
    exact Nat.lt_of_lt_of_le (LittleEndian.decode_lt bs) (Nat.pow_le_pow_right (by decide) hbs)
  rw [foldl_update_eq hx, foldl_update_eq (hlength ▸ hx), hlength] at h
  have hword := (UInt32.xor_right_inj r).1 (repeat_shift_injective _ h)
  have hnat := congrArg UInt32.toNat hword
  rw [UInt32.toNat_ofNat_of_lt' (hsize x hx), UInt32.toNat_ofNat_of_lt' (hsize y (hlength ▸ hx))]
    at hnat
  exact LittleEndian.decode_inj hlength hnat

end Crc32

namespace Bytes

/-- The texts are as long as each other and differ at most in the `n` bytes from `i` on. -/
structure DifferWithin (i n : Nat) (a b : Bytes) : Prop where
  length : b.length = a.length
  outside : ∀ j, j < i ∨ i + n ≤ j → b[j]? = a[j]?

/-- Such texts have their beginnings and their ends in common. -/
theorem DifferWithin.exists_append {i n : Nat} {a b : Bytes} (h : a.DifferWithin i n b) :
    ∃ p x y s, a = p ++ x ++ s ∧ b = p ++ y ++ s ∧ x.length = y.length ∧ x.length ≤ n := by
  have hfront : b.take i = a.take i := by
    apply List.ext_getElem?
    intro j
    by_cases hj : j < i
    · rw [List.getElem?_take_of_lt hj, List.getElem?_take_of_lt hj, h.outside j (.inl hj)]
    · rw [List.getElem?_take_eq_none (by omega), List.getElem?_take_eq_none (by omega)]
  have hback : b.drop (i + n) = a.drop (i + n) := by
    apply List.ext_getElem?
    intro j
    rw [List.getElem?_drop, List.getElem?_drop, h.outside _ (.inr (by omega))]
  have hsplit : ∀ bs : Bytes, bs = bs.take i ++ (bs.drop i).take n ++ bs.drop (i + n) := by
    intro bs
    rw [List.append_assoc, ← List.drop_drop, List.take_append_drop, List.take_append_drop]
  refine ⟨a.take i, (a.drop i).take n, (b.drop i).take n, a.drop (i + n), hsplit a, ?_, ?_, ?_⟩
  · rw [← hfront, ← hback]
    exact hsplit b
  · simp only [List.length_take, List.length_drop, h.length]
  · exact List.length_take_le ..

theorem differWithin_flipBit (bs : Bytes) (i : Nat) (bit : Fin 8) :
    bs.DifferWithin i 4 (bs.flipBit i bit) := by
  refine ⟨length_flipBit bs i bit, fun j hj => ?_⟩
  have hne : i ≠ j := by omega
  simp [flipBit, hne]

theorem flipBit_ne {bs : Bytes} {i : Nat} (hi : i < bs.length) (bit : Fin 8) :
    bs.flipBit i bit ≠ bs := by
  obtain ⟨x, hx, hflip⟩ := flipBit_eq_set hi bit
  intro hsame
  have hi' : bs[i]? = some x := by rw [← hsame, hflip, List.getElem?_set_self hi]
  rw [List.getElem?_eq_getElem hi] at hi'
  exact hx (Option.some.inj hi')

end Bytes

namespace Checksum

/-- Other bytes in the place of up to four bytes change the checksum. -/
theorem checksum_crc32_append_ne (p s : Bytes) {x y : Bytes} (hlength : x.length = y.length)
    (hx : x.length ≤ 4) (hne : x ≠ y) :
    checksum .crc32 (p ++ x ++ s) ≠ checksum .crc32 (p ++ y ++ s) := by
  intro h
  have hregister := Crc32.finish_injective h
  simp only [List.foldl_append] at hregister
  have hword := foldl_injective Crc32.update_injective s hregister
  exact hne (Crc32.eq_of_foldl_update_eq hlength hx hword)

theorem verify_crc32_of_differWithin {i : Nat} {a b : Bytes} (h : a.DifferWithin i 4 b)
    (hne : b ≠ a) : verify .crc32 (checksum .crc32 a) b = false := by
  obtain ⟨p, x, y, s, rfl, rfl, hlength, hx⟩ := h.exists_append
  apply verify_eq_false_of_ne (by decide)
  refine (checksum_crc32_append_ne p s hlength hx ?_).symm
  rintro rfl
  exact hne rfl

/-- CRC-32 tells apart all texts that differ only in up to four bytes that stand together. So
verification refuses a text whose damage is that short, and one with a single flipped bit. -/
theorem crc32_notices_short_bursts :
    (∀ p s x y : Bytes, x.length = y.length → x.length ≤ 4 → x ≠ y →
      checksum .crc32 (p ++ x ++ s) ≠ checksum .crc32 (p ++ y ++ s)) ∧
    (∀ (a b : Bytes) (i : Nat), a.DifferWithin i 4 b → b ≠ a →
      verify .crc32 (checksum .crc32 a) b = false) ∧
    ∀ (a : Bytes) (i : Nat) (bit : Fin 8), i < a.length →
      verify .crc32 (checksum .crc32 a) (a.flipBit i bit) = false :=
  ⟨fun p s _ _ hlength hx hne => checksum_crc32_append_ne p s hlength hx hne,
    fun _ _ _ h hne => verify_crc32_of_differWithin h hne,
    fun a i bit hi => verify_crc32_of_differWithin (a.differWithin_flipBit i bit)
      (Bytes.flipBit_ne hi bit)⟩

/-- For one, six bytes of which the four in the middle were damaged, or the last bit was flipped. -/
theorem crc32_notices_four_damaged_bytes :
    let x : Bytes := [2, 3, 4, 5]
    let y : Bytes := [9, 8, 7, 0]
    let a : Bytes := [1] ++ x ++ [6]
    let b : Bytes := [1] ++ y ++ [6]
    x.length = y.length ∧ x.length ≤ 4 ∧ x ≠ y ∧ a.DifferWithin 1 4 b ∧ b ≠ a ∧ 5 < a.length ∧
      checksum .crc32 a ≠ checksum .crc32 b ∧
      verify .crc32 (checksum .crc32 a) b = false ∧
      verify .crc32 (checksum .crc32 a) (a.flipBit 5 7) = false := by
  intro x y a b
  have hlength : x.length = y.length := rfl
  have hx : x.length ≤ 4 := by decide
  have hxy : x ≠ y := by decide
  have hba : b ≠ a := by decide
  have hlast : 5 < a.length := by decide
  have hdiffer : a.DifferWithin 1 4 b := by
    refine ⟨rfl, fun j hj => ?_⟩
    rcases hj with hj | hj
    · obtain rfl : j = 0 := by omega
      rfl
    · obtain ⟨k, rfl⟩ := Nat.exists_eq_add_of_le' hj
      rfl
  obtain ⟨hne, hwindow, hbit⟩ := crc32_notices_short_bursts
  exact ⟨hlength, hx, hxy, hdiffer, hba, hlast, hne [1] [6] x y hlength hx hxy,
    hwindow a b 1 hdiffer hba, hbit a 5 7 hlast⟩

end Checksum

end SectionArchive
