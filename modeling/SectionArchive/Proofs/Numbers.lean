import Mathlib
import SectionArchive.Deflate.Bits
/-!
Numbers written with a fixed count of digits, bytes or bits: reading the digits back gives the
number modulo what that count can hold.
-/

namespace SectionArchive

namespace LittleEndian

theorem decode_encode (w n : Nat) : decode (encode w n) = n % 256 ^ w := by
  induction w generalizing n with
  | zero => simp [encode, decode, Nat.mod_one]
  | succ w ih =>
    simp only [encode, decode, ih, UInt8.toNat_ofNat']
    rw [show 2 ^ 8 = 256 from rfl, Nat.pow_succ, Nat.mul_comm (256 ^ w) 256, Nat.mod_mul]

end LittleEndian

namespace Deflate

theorem ofBits_numberBits (w n : Nat) : ofBits (numberBits w n) = n % 2 ^ w := by
  induction w generalizing n with
  | zero => simp [numberBits, ofBits, Nat.mod_one]
  | succ w ih =>
    simp only [numberBits, ofBits, ih]
    rw [Nat.pow_succ, Nat.mul_comm (2 ^ w) 2, Nat.mod_mul]
    rcases Nat.mod_two_eq_zero_or_one n with h | h <;> simp [h]

end Deflate

end SectionArchive
