import Mathlib
import SectionArchive.Lzma.RangeEncoder
import SectionArchive.Proofs.Numbers
/-!
The interval of a range encoder. What is written and the lower end below it make one number; coding
an answer only ever narrows the interval above that number, so whatever is written in the end lies
in every interval on the way. The bytes written never grow a digit: a carry always finds room.
-/

namespace SectionArchive.Lzma

def leading (bs : Bytes) (n : Nat) : Nat := LittleEndian.decode (bs.take n).reverse

theorem leading_succ {bs : Bytes} {n : Nat} (h : n < bs.length) :
    leading bs (n + 1) = leading bs n * 256 + bs[n].toNat := by
  rw [leading, List.take_succ_eq_append_getElem h, List.reverse_append, List.reverse_singleton,
    List.singleton_append, LittleEndian.decode, leading]
  omega

theorem adapt_bounds {p : Nat} (h : 31 ≤ p ∧ p ≤ 2017) (bit : Bool) :
    31 ≤ adapt p bit ∧ adapt p bit ≤ 2017 := by
  cases bit <;> simp only [adapt, Bool.false_eq_true, if_true, if_false] <;> omega

namespace RangeEncoder

def lower (e : RangeEncoder) : Nat := LittleEndian.decode e.written * 4294967296 + e.low

def width (e : RangeEncoder) : Nat := e.written.length + 4

/-- What holds of an encoder between answers. -/
structure Sound (e : RangeEncoder) : Prop where
  low_lt : e.low < 4294967296
  range_ge : 0x10000 ≤ e.range
  range_lt : e.range < 4294967296
  room : e.lower + e.range ≤ 256 ^ (e.written.length + 3)
  probs : ∀ i, 31 ≤ e.probs.getD i evenOdds ∧ e.probs.getD i evenOdds ≤ 2017

structure Holds (e : RangeEncoder) (out : Bytes) : Prop where
  width_le : e.width ≤ out.length
  lower_le : e.lower ≤ leading out e.width
  lt_upper : leading out e.width < e.lower + e.range

/-! ### Moving up by a byte -/

theorem lower_shift {e : RangeEncoder} (h : e.low < 4294967296) :
    e.shift.lower = e.lower * 256 := by
  simp only [lower, shift, LittleEndian.decode, UInt8.toNat_ofNat']
  omega

theorem low_shift_lt (e : RangeEncoder) : e.shift.low < 4294967296 := by
  simp only [shift]
  omega

theorem normalize_of_lt {e : RangeEncoder} (h : e.range < narrow) :
    e.normalize = { e.shift with range := e.range * 256 } := by
  rw [normalize, if_pos h]

theorem normalize_of_not_lt {e : RangeEncoder} (h : ¬ e.range < narrow) : e.normalize = e := by
  rw [normalize, if_neg h]

theorem Sound.normalize {e : RangeEncoder} (h : e.Sound) : e.normalize.Sound := by
  by_cases hrange : e.range < narrow
  · rw [normalize_of_lt hrange]
    have hroom := h.room
    have hlow := h.range_ge
    have hlower := lower_shift h.low_lt
    simp only [narrow] at hrange
    refine ⟨low_shift_lt e, by simp only; omega, by simp only; omega, ?_, h.probs⟩
    change e.shift.lower + e.range * 256 ≤ 256 ^ (e.written.length + 1 + 3)
    rw [hlower, ← Nat.add_mul, Nat.add_right_comm, Nat.pow_succ]
    exact Nat.mul_le_mul_right 256 hroom
  · rwa [normalize_of_not_lt hrange]

theorem Sound.narrow_le {e : RangeEncoder} (h : e.Sound) : narrow ≤ e.normalize.range := by
  by_cases hrange : e.range < narrow
  · have hlow := h.range_ge
    rw [normalize_of_lt hrange]
    simp only [narrow]
    omega
  · rw [normalize_of_not_lt hrange]
    omega

/-- Bytes in the widened interval are in the interval. -/
theorem Holds.of_normalize {e : RangeEncoder} (h : e.Sound) {out : Bytes}
    (hout : e.normalize.Holds out) : e.Holds out := by
  by_cases hrange : e.range < narrow
  · rw [normalize_of_lt hrange] at hout
    obtain ⟨hwidth, hlow, hhigh⟩ := hout
    change e.width + 1 ≤ out.length at hwidth
    change e.shift.lower ≤ leading out (e.width + 1) at hlow
    change leading out (e.width + 1) < e.shift.lower + e.range * 256 at hhigh
    rw [lower_shift h.low_lt, leading_succ (by omega)] at hlow hhigh
    have hlength : e.width < out.length := by omega
    have hbyte := out[e.width].toNat_lt
    exact ⟨by omega, by omega, by omega⟩
  · rwa [normalize_of_not_lt hrange] at hout

/-! ### Raising the lower end -/

theorem length_carry (bs : Bytes) : (carry bs).length = bs.length := by
  induction bs with
  | nil => rfl
  | cons b rest ih =>
    simp only [carry]
    split <;> simp [ih]

theorem decode_carry {bs : Bytes} (h : LittleEndian.decode bs + 1 < 256 ^ bs.length) :
    LittleEndian.decode (carry bs) = LittleEndian.decode bs + 1 := by
  induction bs with
  | nil => simp [LittleEndian.decode] at h
  | cons b rest ih =>
    simp only [carry]
    split
    · next hb =>
      subst hb
      simp only [LittleEndian.decode, List.length_cons, Nat.pow_succ] at h ⊢
      rw [ih (by change 255 + 256 * _ + 1 < _ at h; omega)]
      change 0 + 256 * _ = 255 + 256 * _ + 1
      omega
    · next hb =>
      have hlt := b.toNat_lt
      have hne : b.toNat ≠ 255 := fun heq => hb (UInt8.toNat_inj.1 heq)
      simp only [LittleEndian.decode, UInt8.toNat_add, UInt8.toNat_one]
      omega

/-- Raising the lower end loses nothing while there is room. -/
theorem raise_eq {e : RangeEncoder} {by_ : Nat} (hlow : e.low < 4294967296)
    (hby : by_ < 4294967296) (hroom : e.lower + by_ < 256 ^ (e.written.length + 3)) :
    (e.raise by_).lower = e.lower + by_ ∧ (e.raise by_).low < 4294967296 ∧
      (e.raise by_).written.length = e.written.length := by
  simp only [raise, UInt32.size]
  split
  · next hlt =>
    exact ⟨by simp only [lower]; omega, hlt, rfl⟩
  · next hge =>
    have hcarry : LittleEndian.decode (carry e.written) = LittleEndian.decode e.written + 1 := by
      rw [lower, Nat.pow_add] at hroom
      exact decode_carry (by omega)
    refine ⟨?_, by simp only; omega, length_carry _⟩
    simp only [lower, hcarry]
    omega

/-! ### Coding an answer -/

/-- The part of a widened interval that an answer selects: its offset and its range. -/
def part (e : RangeEncoder) (slot : Option Nat) (bit : Bool) : Nat × Nat :=
  let bound := match slot with
    | some i => e.range / 2048 * e.probs.getD i evenOdds
    | none => e.range / 2
  if bit then (bound, if slot.isSome then e.range - bound else bound) else (0, bound)

def learned (e : RangeEncoder) (slot : Option Nat) (bit : Bool) : Array Nat :=
  match slot with
  | some i => e.probs.setIfInBounds i (adapt (e.probs.getD i evenOdds) bit)
  | none => e.probs

theorem part_bounds {e : RangeEncoder} (h : e.Sound) (hrange : narrow ≤ e.range)
    (slot : Option Nat) (bit : Bool) :
    (e.part slot bit).1 < e.range ∧ 0x10000 ≤ (e.part slot bit).2 ∧
      (e.part slot bit).1 + (e.part slot bit).2 ≤ e.range := by
  simp only [narrow] at hrange
  cases slot with
  | none => cases bit <;> simp only [part] <;> grind
  | some i =>
    obtain ⟨hlow, hhigh⟩ := h.probs i
    have hleast : e.range / 2048 * 31 ≤ e.range / 2048 * e.probs.getD i evenOdds :=
      Nat.mul_le_mul_left _ hlow
    have hmost : e.range / 2048 * e.probs.getD i evenOdds ≤ e.range / 2048 * 2017 :=
      Nat.mul_le_mul_left _ hhigh
    cases bit <;> simp only [part, Option.isSome_some, if_true, Bool.false_eq_true, if_false] <;>
      omega

theorem probs_learned {e : RangeEncoder} (h : e.Sound) (slot : Option Nat) (bit : Bool) (j : Nat) :
    31 ≤ (e.learned slot bit).getD j evenOdds ∧ (e.learned slot bit).getD j evenOdds ≤ 2017 := by
  cases slot with
  | none => exact h.probs j
  | some i =>
    have hadapt := adapt_bounds (h.probs i) bit
    have hj := h.probs j
    simp only [learned, Array.getD_eq_getD_getElem?, Array.getElem?_setIfInBounds] at hadapt hj ⊢
    split
    · next heq =>
      subst heq
      split <;> simp_all
    · exact hj

theorem code_false (e : RangeEncoder) (slot : Option Nat) :
    e.code slot false = { e.normalize with
      range := (e.normalize.part slot false).2, probs := e.normalize.learned slot false } := by
  cases slot <;> rfl

theorem code_true (e : RangeEncoder) (slot : Option Nat) :
    e.code slot true =
      { RangeEncoder.raise { e.normalize with probs := e.normalize.learned slot true }
        (e.normalize.part slot true).1 with range := (e.normalize.part slot true).2 } := by
  cases slot <;> rfl

theorem probs_raise (e : RangeEncoder) (by_ : Nat) : (e.raise by_).probs = e.probs := by
  simp only [raise]
  split <;> rfl

/-- Coding selects a part of the widened interval. -/
theorem code_eq {e : RangeEncoder} (h : e.Sound) (slot : Option Nat) (bit : Bool) :
    (e.code slot bit).lower = e.normalize.lower + (e.normalize.part slot bit).1 ∧
      (e.code slot bit).range = (e.normalize.part slot bit).2 ∧
      (e.code slot bit).low < 4294967296 ∧
      (e.code slot bit).written.length = e.normalize.written.length ∧
      (e.code slot bit).probs = e.normalize.learned slot bit := by
  have hn := h.normalize
  have hlow := hn.low_lt
  have hrange := hn.range_lt
  have hroom := hn.room
  have hpart := (part_bounds hn h.narrow_le slot bit).1
  cases bit with
  | false =>
    have hpart0 : (e.normalize.part slot false).1 = 0 := by cases slot <;> rfl
    rw [code_false, hpart0]
    exact ⟨by simp only [lower, Nat.add_zero], rfl, hlow, rfl, rfl⟩
  | true =>
    obtain ⟨hlower, hlow', hwritten⟩ := @raise_eq
      { e.normalize with probs := e.normalize.learned slot true } (e.normalize.part slot true).1
      hlow (by omega) (Nat.lt_of_lt_of_le (Nat.add_lt_add_left hpart _) hroom)
    rw [code_true]
    exact ⟨hlower, rfl, hlow', hwritten, probs_raise _ _⟩

theorem Sound.code {e : RangeEncoder} (h : e.Sound) (slot : Option Nat) (bit : Bool) :
    (e.code slot bit).Sound := by
  obtain ⟨hlower, hrange, hlow, hwritten, hprobs⟩ := code_eq h slot bit
  obtain ⟨-, hge, hle⟩ := part_bounds h.normalize h.narrow_le slot bit
  have hlt := h.normalize.range_lt
  have hroom := h.normalize.room
  refine ⟨hlow, by omega, by omega, by rw [hwritten]; omega, ?_⟩
  rw [hprobs]
  exact probs_learned h.normalize slot bit

/-- Bytes in the interval behind an answer are in the widened interval before it. -/
theorem Holds.normalize_of_code {e : RangeEncoder} (h : e.Sound) {slot : Option Nat} {bit : Bool}
    {out : Bytes} (hout : (e.code slot bit).Holds out) : e.normalize.Holds out := by
  obtain ⟨hlower, hrange, -, hwritten, -⟩ := code_eq h slot bit
  obtain ⟨-, -, hle⟩ := part_bounds h.normalize h.narrow_le slot bit
  obtain ⟨hwidth, hlow, hhigh⟩ := hout
  rw [width, hwritten] at hwidth hlow hhigh
  exact ⟨hwidth, by simp only [width]; omega, by simp only [width]; omega⟩

theorem Holds.of_code {e : RangeEncoder} (h : e.Sound) {slot : Option Nat} {bit : Bool}
    {out : Bytes} (hout : (e.code slot bit).Holds out) : e.Holds out :=
  Holds.of_normalize h (Holds.normalize_of_code h hout)

/-! ### Runs -/

theorem Sound.run {α : Type} {e : RangeEncoder} (h : e.Sound) (p : Program α) (bits : List Bool) :
    (RangeEncoder.run p bits e).Sound := by
  induction p generalizing e bits with
  | done a => exact h
  | ask slot next ih =>
    cases bits with
    | nil => exact h
    | cons b bits => exact ih b (h.code slot b) bits

theorem Holds.of_run {α : Type} {e : RangeEncoder} (h : e.Sound) {p : Program α} {bits : List Bool}
    {out : Bytes} (hout : (RangeEncoder.run p bits e).Holds out) : e.Holds out := by
  -- From the end: the interval behind an answer lies within the one before it.
  induction p generalizing e bits with
  | done a => exact hout
  | ask slot next ih =>
    cases bits with
    | nil => exact hout
    | cons b bits => exact Holds.of_code h (ih b (h.code slot b) hout)

/-! ### Start and end -/

theorem lower_shift_four {e : RangeEncoder} (h : e.low < 4294967296) :
    LittleEndian.decode e.shift.shift.shift.shift.written = e.lower := by
  have hlower : e.shift.shift.shift.shift.lower = e.lower * 256 * 256 * 256 * 256 := by
    rw [lower_shift (low_shift_lt _), lower_shift (low_shift_lt _), lower_shift (low_shift_lt _),
      lower_shift h]
  have hlow : e.shift.shift.shift.shift.low = 0 := by
    simp only [shift]
    omega
  rw [lower, hlow] at hlower
  omega

/-- What is written in the end is the lower end. -/
theorem leading_finish {e : RangeEncoder} (h : e.Sound) :
    e.finish.length = e.normalize.width ∧
      leading e.finish e.normalize.width = e.normalize.lower := by
  have hlen : e.finish.length = e.normalize.width := by
    simp [finish, shift, width]
  refine ⟨hlen, ?_⟩
  rw [leading, ← hlen, List.take_length, finish, List.reverse_reverse,
    lower_shift_four h.normalize.low_lt]

theorem Holds.finish {e : RangeEncoder} (h : e.Sound) : e.Holds e.finish := by
  obtain ⟨hlen, hlead⟩ := leading_finish h
  have hrange := h.normalize.range_ge
  exact Holds.of_normalize h ⟨by omega, by omega, by omega⟩

theorem lower_fresh (probs : Array Nat) : lower { probs } = 0 := by
  simp only [lower, LittleEndian.decode, UInt8.toNat_zero, Nat.mul_zero, Nat.zero_mul, Nat.add_zero]

theorem sound_fresh {probs : Array Nat}
    (h : ∀ i, 31 ≤ probs.getD i evenOdds ∧ probs.getD i evenOdds ≤ 2017) :
    RangeEncoder.Sound { probs } where
  low_lt := show 0 < 4294967296 by decide
  range_ge := show 0x10000 ≤ UInt32.size - 1 by decide
  range_lt := show UInt32.size - 1 < 4294967296 by decide
  room := show LittleEndian.decode [0] * 4294967296 + 0 + (UInt32.size - 1) ≤ 256 ^ 4 by decide
  probs := h

end RangeEncoder

end SectionArchive.Lzma
