import Mathlib
import SectionArchive.Checksum.Kind
/-!
What a checksum notices. A byte moves the register of a running checksum to another one: no two
registers are moved to the same by one byte, and no two bytes move one register to the same. So a
register that has once gone astray stays astray, and one byte put in the place of another always
changes the checksum, however long the text is.
-/

namespace SectionArchive

/-- Steps that lose nothing of the register lose nothing of it on the way through a text. -/
theorem foldl_injective {σ α : Type} {step : σ → α → σ}
    (hregister : ∀ x, Function.Injective fun s => step s x) (text : List α) :
    Function.Injective fun s => text.foldl step s := by
  induction text with
  | nil => exact fun _ _ h => h
  | cons x rest ih =>
    intro s s' h
    exact hregister x (ih h)

/-- Steps that also tell the letters apart keep a difference to the end. -/
theorem foldl_set_ne {σ α : Type} {step : σ → α → σ}
    (hregister : ∀ x, Function.Injective fun s => step s x)
    (hletter : ∀ s, Function.Injective (step s)) {text : List α} {i : Nat} (hi : i < text.length)
    {x : α} (hx : text[i] ≠ x) (s : σ) : (text.set i x).foldl step s ≠ text.foldl step s := by
  induction text generalizing i s with
  | nil => cases hi
  | cons first rest ih =>
    cases i with
    | zero =>
      rw [List.set_cons_zero, List.foldl_cons, List.foldl_cons]
      apply (foldl_injective hregister rest).ne
      intro heq
      exact hx (hletter s heq).symm
    | succ i =>
      rw [List.set_cons_succ, List.foldl_cons, List.foldl_cons]
      exact ih (Nat.lt_of_succ_lt_succ hi) hx _

namespace Weak

theorem update_injective (b : UInt8) : Function.Injective fun s : Sums => s.update b := by
  rintro ⟨a, c⟩ ⟨a', c'⟩ h
  simp only [Sums.update, Sums.mk.injEq, UInt16.add_left_inj] at h
  obtain ⟨rfl, hsum⟩ := h
  rw [Sums.mk.injEq]
  exact ⟨rfl, (UInt16.add_left_inj _).1 hsum⟩

theorem update_injective_byte (s : Sums) : Function.Injective s.update := by
  intro x y h
  have ha := congrArg Sums.a h
  simp only [Sums.update, UInt16.add_right_inj] at ha
  have hnat := congrArg UInt16.toNat ha
  rw [UInt8.toNat_toUInt16, UInt8.toNat_toUInt16] at hnat
  exact UInt8.toNat_inj.1 hnat

theorem toNat_finish (s : Sums) : s.finish.toNat = s.b.toNat * 65536 + s.a.toNat := by
  have ha := s.a.toNat_lt
  have hb := s.b.toNat_lt
  have hshift : s.b.toNat <<< 16 % 2 ^ 32 = s.b.toNat <<< 16 := by
    rw [Nat.shiftLeft_eq]
    exact Nat.mod_eq_of_lt (by omega)
  rw [Sums.finish, UInt32.toNat_or, UInt32.toNat_shiftLeft, UInt16.toNat_toUInt32,
    UInt16.toNat_toUInt32, show (16 : UInt32).toNat % 32 = 16 from rfl, hshift,
    ← Nat.shiftLeft_add_eq_or_of_lt ha, Nat.shiftLeft_eq]

theorem finish_injective : Function.Injective Sums.finish := by
  rintro ⟨a, c⟩ ⟨a', c'⟩ h
  have hnat := congrArg UInt32.toNat h
  rw [toNat_finish, toNat_finish] at hnat
  have ha := a.toNat_lt
  have ha' := a'.toNat_lt
  rw [Sums.mk.injEq]
  constructor
  · exact UInt16.toNat_inj.1 (by simp only at hnat; omega)
  · exact UInt16.toNat_inj.1 (by simp only at hnat; omega)

end Weak

namespace Crc32

/-! ### The shift -/

theorem and_one_eq_one_iff (r : UInt32) : r &&& 1 = 1 ↔ r.toNat % 2 = 1 := by
  rw [← UInt32.toNat_inj, UInt32.toNat_and, show (1 : UInt32).toNat = 1 from rfl,
    Nat.and_one_is_mod]

theorem shift_of_odd {r : UInt32} (h : r.toNat % 2 = 1) : shift r = (r >>> 1) ^^^ polynomial := by
  rw [shift, if_pos ((and_one_eq_one_iff r).2 h)]

theorem shift_of_even {r : UInt32} (h : r.toNat % 2 = 0) : shift r = r >>> 1 := by
  rw [shift, if_neg]
  rw [and_one_eq_one_iff]
  omega

theorem toNat_shiftRight_one (r : UInt32) : (r >>> 1).toNat = r.toNat / 2 := by
  rw [UInt32.toNat_shiftRight, show (1 : UInt32).toNat % 32 = 1 from rfl, Nat.shiftRight_eq_div_pow,
    Nat.pow_one]

/-- Shifting distributes over the sum of two registers. -/
theorem shift_xor (r s : UInt32) : shift (r ^^^ s) = shift r ^^^ shift s := by
  have hparity : (r ^^^ s).toNat % 2 = (r.toNat + s.toNat) % 2 := by
    rw [UInt32.toNat_xor, Nat.xor_mod_two_eq]
  rcases Nat.mod_two_eq_zero_or_one r.toNat with hr | hr <;>
    rcases Nat.mod_two_eq_zero_or_one s.toNat with hs | hs
  · rw [shift_of_even (by omega), shift_of_even hr, shift_of_even hs, UInt32.shiftRight_xor]
  · rw [shift_of_odd (by omega), shift_of_even hr, shift_of_odd hs, UInt32.shiftRight_xor,
      UInt32.xor_assoc]
  · rw [shift_of_odd (by omega), shift_of_odd hr, shift_of_even hs, UInt32.shiftRight_xor,
      UInt32.xor_assoc, UInt32.xor_assoc, UInt32.xor_comm (s >>> 1)]
  · rw [shift_of_even (by omega), shift_of_odd hr, shift_of_odd hs, UInt32.shiftRight_xor,
      UInt32.xor_comm (s >>> 1), UInt32.xor_assoc, ← UInt32.xor_assoc polynomial,
      UInt32.xor_self, UInt32.zero_xor]

/-- Only the register that is zero is shifted to zero: the generator has its highest bit set, which
no other shift sets. -/
theorem eq_zero_of_shift {r : UInt32} (h : shift r = 0) : r = 0 := by
  have hlt := r.toNat_lt
  rw [← UInt32.toNat_inj]
  rcases Nat.mod_two_eq_zero_or_one r.toNat with hr | hr
  · rw [shift_of_even hr, ← UInt32.toNat_inj, toNat_shiftRight_one] at h
    have hzero : (0 : UInt32).toNat = 0 := rfl
    omega
  · rw [shift_of_odd hr, UInt32.xor_eq_zero_iff, ← UInt32.toNat_inj, toNat_shiftRight_one] at h
    have hpolynomial : polynomial.toNat = 0xEDB88320 := rfl
    omega

theorem shift_injective : Function.Injective shift := by
  intro r s h
  rw [← UInt32.xor_eq_zero_iff]
  apply eq_zero_of_shift
  rw [shift_xor, h, UInt32.xor_self]

theorem repeat_shift_xor (n : Nat) (r s : UInt32) :
    Nat.repeat shift n (r ^^^ s) = Nat.repeat shift n r ^^^ Nat.repeat shift n s := by
  induction n with
  | zero => rfl
  | succ n ih => rw [Nat.repeat, ih, shift_xor, Nat.repeat, Nat.repeat]

theorem repeat_shift_injective (n : Nat) : Function.Injective (Nat.repeat shift n) := by
  induction n with
  | zero => exact fun _ _ h => h
  | succ n ih =>
    intro r s h
    rw [Nat.repeat, Nat.repeat] at h
    exact ih (shift_injective h)

/-- As long as no one falls out, shifting halves. -/
theorem toNat_repeat_shift {n : Nat} {r : UInt32} (h : 2 ^ n ∣ r.toNat) :
    (Nat.repeat shift n r).toNat = r.toNat / 2 ^ n := by
  induction n with
  | zero => rw [Nat.repeat, Nat.pow_zero, Nat.div_one]
  | succ n ih =>
    obtain ⟨m, hm⟩ := h
    have hstep := ih ⟨2 * m, by rw [hm, Nat.pow_succ, Nat.mul_assoc]⟩
    have hhalf : r.toNat / 2 ^ n = 2 * m := by
      rw [hm, Nat.pow_succ, Nat.mul_assoc, Nat.mul_div_cancel_left _ (Nat.two_pow_pos n)]
    rw [hhalf] at hstep
    rw [Nat.repeat, shift_of_even (by omega), toNat_shiftRight_one, hstep, Nat.pow_succ,
      ← Nat.div_div_eq_div_mul, hhalf]

theorem repeat_shift_repeat_shift (m n : Nat) (r : UInt32) :
    Nat.repeat shift m (Nat.repeat shift n r) = Nat.repeat shift (n + m) r := by
  induction m with
  | zero => rfl
  | succ m ih => rw [Nat.repeat, ih, ← Nat.add_assoc, Nat.repeat]

/-- A number of `k` bits and what stands above them do not overlap. -/
theorem xor_two_pow_mul {k m : Nat} (hm : m < 2 ^ k) (n : Nat) :
    m ^^^ 2 ^ k * n = m + 2 ^ k * n := by
  have hlow : (m ^^^ 2 ^ k * n) % 2 ^ k = m := by
    rw [Nat.xor_mod_two_pow, Nat.mod_eq_of_lt hm, Nat.mul_mod_right, Nat.xor_zero]
  have hhigh : (m ^^^ 2 ^ k * n) / 2 ^ k = n := by
    rw [Nat.xor_div_two_pow, Nat.div_eq_of_lt hm, Nat.mul_div_cancel_left n (Nat.two_pow_pos k),
      Nat.zero_xor]
  calc m ^^^ 2 ^ k * n
      = 2 ^ k * ((m ^^^ 2 ^ k * n) / 2 ^ k) + (m ^^^ 2 ^ k * n) % 2 ^ k :=
        (Nat.div_add_mod ..).symm
    _ = m + 2 ^ k * n := by rw [hlow, hhigh, Nat.add_comm]

/-- What is added behind `k` shifts can be added before them, `k` places higher. -/
theorem repeat_shift_xor_ofNat {k m n : Nat} (hm : m < 2 ^ k) (hn : 2 ^ k * n < UInt32.size)
    (j : Nat) (r : UInt32) :
    Nat.repeat shift j (Nat.repeat shift k (r ^^^ UInt32.ofNat m) ^^^ UInt32.ofNat n) =
      Nat.repeat shift (k + j) (r ^^^ UInt32.ofNat (m + 2 ^ k * n)) := by
  have hword : Nat.repeat shift k (UInt32.ofNat (2 ^ k * n)) = UInt32.ofNat n := by
    have hnat := UInt32.toNat_ofNat_of_lt' hn
    have hle : n ≤ 2 ^ k * n := Nat.le_mul_of_pos_left n (Nat.two_pow_pos k)
    rw [← UInt32.toNat_inj, toNat_repeat_shift (by rw [hnat]; exact Nat.dvd_mul_right ..), hnat,
      UInt32.toNat_ofNat_of_lt' (Nat.lt_of_le_of_lt hle hn)]
    exact Nat.mul_div_cancel_left n (Nat.two_pow_pos k)
  rw [← hword, ← repeat_shift_xor, UInt32.xor_assoc, ← UInt32.ofNat_xor, xor_two_pow_mul hm,
    repeat_shift_repeat_shift]

/-! ### The step of a byte -/

theorem getD_table {n : Nat} (h : n < 256) :
    table.getD n 0 = Nat.repeat shift 8 (UInt32.ofNat n) := by
  have hsize : n < table.size := by
    rw [table, Array.size_ofFn]
    exact h
  rw [Array.getD, dif_pos hsize]
  simp only [table, Array.getInternal_eq_getElem, Array.getElem_ofFn]

/-- Eight shifts of a register, those of its low byte being known. -/
theorem repeat_shift_eight (r : UInt32) :
    Nat.repeat shift 8 r = Nat.repeat shift 8 (r &&& 0xFF) ^^^ (r >>> 8) := by
  have hlow : (r &&& 0xFF).toNat = r.toNat % 256 := by
    rw [UInt32.toNat_and]
    exact Nat.and_two_pow_sub_one_eq_mod r.toNat 8
  have hdiv : (r ^^^ (r &&& 0xFF)).toNat / 2 ^ 8 = r.toNat / 2 ^ 8 := by
    rw [UInt32.toNat_xor, hlow, Nat.xor_div_two_pow]
    have hzero : r.toNat % 256 / 2 ^ 8 = 0 := by omega
    rw [hzero, Nat.xor_zero]
  have hmod : 2 ^ 8 ∣ (r ^^^ (r &&& 0xFF)).toNat := by
    rw [UInt32.toNat_xor, hlow]
    apply Nat.dvd_of_mod_eq_zero
    rw [Nat.xor_mod_two_pow, Nat.mod_mod, Nat.xor_self]
  have hhigh : Nat.repeat shift 8 (r ^^^ (r &&& 0xFF)) = r >>> 8 := by
    rw [← UInt32.toNat_inj, toNat_repeat_shift hmod, hdiv, UInt32.toNat_shiftRight,
      show (8 : UInt32).toNat % 32 = 8 from rfl, Nat.shiftRight_eq_div_pow]
  rw [← hhigh, ← repeat_shift_xor, UInt32.xor_comm r, ← UInt32.xor_assoc, UInt32.xor_self,
    UInt32.zero_xor]

/-- The look-up in the table is eight shifts. -/
theorem update_eq (r : UInt32) (b : UInt8) :
    update r b = Nat.repeat shift 8 (r ^^^ b.toUInt32) := by
  have hindex : ((r ^^^ b.toUInt32) &&& 0xFF).toNat < 256 := by
    rw [UInt32.toNat_and]
    exact Nat.lt_of_le_of_lt Nat.and_le_right (by decide)
  have hbyte : b.toUInt32 >>> 8 = 0 := by
    have hlt := b.toNat_lt
    rw [← UInt32.toNat_inj, UInt32.toNat_shiftRight, UInt8.toNat_toUInt32,
      show (8 : UInt32).toNat % 32 = 8 from rfl, Nat.shiftRight_eq_div_pow]
    exact Nat.div_eq_of_lt hlt
  rw [update, getD_table hindex, UInt32.ofNat_toNat, repeat_shift_eight (r ^^^ b.toUInt32),
    UInt32.shiftRight_xor, hbyte, UInt32.xor_zero]

theorem update_injective (b : UInt8) : Function.Injective fun r => update r b := by
  intro r s h
  simp only [update_eq] at h
  exact (UInt32.xor_left_inj _).1 (repeat_shift_injective 8 h)

theorem update_injective_byte (r : UInt32) : Function.Injective (update r) := by
  intro x y h
  rw [update_eq, update_eq] at h
  have hword := (UInt32.xor_right_inj _).1 (repeat_shift_injective 8 h)
  have hnat := congrArg UInt32.toNat hword
  rw [UInt8.toNat_toUInt32, UInt8.toNat_toUInt32] at hnat
  exact UInt8.toNat_inj.1 hnat

theorem finish_injective : Function.Injective finish := fun _ _ h => (UInt32.xor_left_inj _).1 h

end Crc32

namespace Checksum

theorem verify_eq_false_of_ne {kind : Kind} (hkind : kind ≠ .none) {stored : UInt32} {bs : Bytes}
    (h : checksum kind bs ≠ stored) : verify kind stored bs = false := by
  rw [verify, Bool.or_eq_false_iff]
  exact ⟨beq_eq_false_iff_ne.2 hkind, beq_eq_false_iff_ne.2 h⟩

/-- Another byte in the place of one changes the checksum, if there is a checksum. -/
theorem checksum_set_ne {kind : Kind} (hkind : kind ≠ .none) {bs : Bytes}
    {i : Nat} (hi : i < bs.length) {x : UInt8} (hx : bs[i] ≠ x) :
    checksum kind (bs.set i x) ≠ checksum kind bs := by
  cases kind with
  | none => exact absurd rfl hkind
  | weak =>
    intro h
    exact foldl_set_ne Weak.update_injective Weak.update_injective_byte hi hx _
      (Weak.finish_injective h)
  | crc32 =>
    intro h
    exact foldl_set_ne Crc32.update_injective Crc32.update_injective_byte hi hx _
      (Crc32.finish_injective h)

end Checksum

end SectionArchive
