/-!
Byte strings and little-endian numbers. A number is written with a fixed count of base-256
digits, the lowest first; reading back the digits gives the number modulo that width.
-/

namespace SectionArchive

abbrev Bytes := List UInt8

namespace Bytes

def ofString (s : String) : Bytes := s.toUTF8.toList

def toString? (bs : Bytes) : Option String := String.fromUTF8? ⟨bs.toArray⟩

/-- Split off the first `n` bytes; `none` if there are fewer. -/
def split? (n : Nat) (bs : Bytes) : Option (Bytes × Bytes) :=
  if n ≤ bs.length then some (bs.take n, bs.drop n) else none

/-- Cut a byte string into pieces of `size` bytes; the last may be shorter. -/
def pieces (size : Nat) (bs : Bytes) : List Bytes :=
  if bs.length ≤ size ∨ size = 0 then (if bs.isEmpty then [] else [bs])
  else bs.take size :: pieces size (bs.drop size)
termination_by bs.length

/-- Overwrite `bs` from `at_` on with `new`; a gap before it is filled with zeros. -/
def overwrite (bs : Bytes) (at_ : Nat) (new : Bytes) : Bytes :=
  bs.take at_ ++ List.replicate (at_ - bs.length) 0 ++ new ++ bs.drop (at_ + new.length)

def resize (bs : Bytes) (n : Nat) : Bytes :=
  bs.take n ++ List.replicate (n - bs.length) 0

theorem split?_append (a b : Bytes) : split? a.length (a ++ b) = some (a, b) := by
  simp [split?]

theorem split?_eq_none_iff {n : Nat} {bs : Bytes} : split? n bs = none ↔ bs.length < n := by
  simp [split?]

theorem flatten_pieces (size : Nat) (bs : Bytes) : (pieces size bs).flatten = bs := by
  fun_induction pieces size bs with
  | case1 bs _ h => simp at h; simp [h]
  | case2 bs _ _ => simp
  | case3 bs _ ih => simp [ih]

end Bytes

/-! ### Little-endian numbers -/

namespace LittleEndian

/-- The `width` low base-256 digits of `n`, lowest first. -/
def encode : (width n : Nat) → Bytes
  | 0, _ => []
  | w + 1, n => UInt8.ofNat n :: encode w (n / 256)

def decode : Bytes → Nat
  | [] => 0
  | b :: bs => b.toNat + 256 * decode bs

@[simp] theorem length_encode (w n : Nat) : (encode w n).length = w := by
  induction w generalizing n with
  | zero => rfl
  | succ w ih => simp [encode, ih]

theorem encode_decode (bs : Bytes) : encode bs.length (decode bs) = bs := by
  induction bs with
  | nil => rfl
  | cons b bs ih =>
    have hb := b.toNat_lt
    simp only [List.length_cons, encode, decode]
    rw [show (b.toNat + 256 * decode bs) / 256 = decode bs by omega, ih]
    congr 1
    apply UInt8.toNat_inj.1
    simp only [UInt8.toNat_ofNat']
    omega

end LittleEndian

def bigEndian32 (x : UInt32) : Bytes := (LittleEndian.encode 4 x.toNat).reverse

end SectionArchive
