import Mathlib
import SectionArchive.Lzma.Pack
import SectionArchive.Proofs.RangeAgreement
/-!
The answers of a token make the packet procedure read that token. Each part of a packet asks for
just the bits that were written for it, whatever slots it asks with, so nothing here depends on the
context but through the procedure itself.
-/

namespace SectionArchive.Lzma

namespace Program

variable {α β : Type}

theorem Yields.bind {p : Program α} {f : α → Program β} {u v : List Bool} {a : α} {b : β}
    (hp : p.Yields u a) (hf : (f a).Yields v b) : (p >>= f).Yields (u ++ v) b := by
  induction hp with
  | done a => exact hf
  | ask _ ih => exact .ask (ih hf)

theorem yields_pure (a : α) : (pure a : Program α).Yields [] a := .done a

theorem Yields.map {p : Program α} {u : List Bool} {a : α} (hp : p.Yields u a) (f : α → β) :
    (p >>= fun x => pure (f x)).Yields u (f a) := by
  have hbind := hp.bind (f := fun x => pure (f x)) (yields_pure (f a))
  rwa [List.append_nil] at hbind

theorem yields_flag (slot : Nat) (b : Bool) : (flag slot).Yields [b] b := .ask (.done b)

theorem toNat_testBit_add_mod (n w : Nat) :
    (n.testBit w).toNat * 2 ^ w + n % 2 ^ w = n % 2 ^ (w + 1) := by
  rw [Nat.mod_pow_succ, Nat.toNat_testBit, Nat.mul_comm, Nat.add_comm]

theorem yields_tree (base w symbol n : Nat) :
    (tree base w symbol).Yields (highFirst w n) (symbol * 2 ^ w + n % 2 ^ w) := by
  induction w generalizing symbol with
  | zero =>
    simpa only [tree, highFirst, Nat.pow_zero, Nat.mul_one, Nat.mod_one, Nat.add_zero] using
      Yields.done symbol
  | succ w ih =>
    have hrest := ih (2 * symbol + (n.testBit w).toNat)
    have hvalue : (2 * symbol + (n.testBit w).toNat) * 2 ^ w + n % 2 ^ w =
        symbol * 2 ^ (w + 1) + n % 2 ^ (w + 1) := by
      rw [← toNat_testBit_add_mod]
      ring
    rw [hvalue] at hrest
    exact .ask hrest

theorem yields_number (base : Nat) {w n : Nat} (h : n < 2 ^ w) :
    (number base w).Yields (highFirst w n) n := by
  have htree := (yields_tree base w 1 n).map fun symbol => symbol - 1 <<< w
  have hvalue : 1 * 2 ^ w + n % 2 ^ w - 1 <<< w = n := by
    rw [Nat.mod_eq_of_lt h, Nat.one_shiftLeft, Nat.one_mul, Nat.add_sub_cancel_left]
  rwa [hvalue] at htree

theorem yields_reversed (base w symbol n : Nat) :
    (reversed base w symbol).Yields (lowFirst w n) (n % 2 ^ w) := by
  induction w generalizing symbol n with
  | zero => simpa only [reversed, lowFirst, Nat.pow_zero, Nat.mod_one] using Yields.done 0
  | succ w ih =>
    have hrest := (ih (2 * symbol + (n.testBit 0).toNat) (n / 2)).map
      fun high => (n.testBit 0).toNat + 2 * high
    have hvalue : (n.testBit 0).toNat + 2 * (n / 2 % 2 ^ w) = n % 2 ^ (w + 1) := by
      rw [Nat.toNat_testBit, Nat.pow_zero, Nat.div_one, Nat.pow_succ, Nat.mul_comm (2 ^ w) 2,
        Nat.mod_mul]
    rw [hvalue] at hrest
    exact .ask hrest

theorem yields_uniform (w n : Nat) : (uniform w).Yields (highFirst w n) (n % 2 ^ w) := by
  induction w with
  | zero => simpa only [uniform, highFirst, Nat.pow_zero, Nat.mod_one] using Yields.done 0
  | succ w ih =>
    have hrest := ih.map fun low => (n.testBit w).toNat <<< w + low
    have hvalue : (n.testBit w).toNat <<< w + n % 2 ^ w = n % 2 ^ (w + 1) := by
      rw [Nat.shiftLeft_eq, toNat_testBit_add_mod]
    rw [hvalue] at hrest
    exact .ask hrest

end Program

open Program

/-! ### Bytes -/

theorem yields_byteProgram (base w symbol n : Nat) (guide : Option Nat) :
    (byteProgram base w symbol guide).Yields (highFirst w n) (symbol * 2 ^ w + n % 2 ^ w) := by
  induction w generalizing symbol guide with
  | zero =>
    simpa only [byteProgram, highFirst, Nat.pow_zero, Nat.mul_one, Nat.mod_one, Nat.add_zero] using
      Yields.done symbol
  | succ w ih =>
    have hvalue : (2 * symbol + (n.testBit w).toNat) * 2 ^ w + n % 2 ^ w =
        symbol * 2 ^ (w + 1) + n % 2 ^ (w + 1) := by
      rw [← toNat_testBit_add_mod]
      ring
    cases guide with
    | none =>
      have hrest := ih (2 * symbol + (n.testBit w).toNat) none
      rw [hvalue] at hrest
      exact .ask hrest
    | some g =>
      have hrest := ih (2 * symbol + (n.testBit w).toNat)
        (if n.testBit w = g.testBit w then some g else none)
      rw [hvalue] at hrest
      exact .ask hrest

/-! ### Lengths and distances -/

theorem yields_lengthProgram (base posState : Nat) {length : Nat} (hmin : 2 ≤ length)
    (hmax : length ≤ 273) :
    (lengthProgram base posState).Yields (lengthAnswers length) length := by
  by_cases hshort : length < 10
  · have hrest := (yields_number (base + 2 + posState * 8) (w := 3) (n := length - 2)
      (by omega)).map (· + 2)
    rw [Nat.sub_add_cancel hmin] at hrest
    rw [lengthAnswers, if_pos hshort]
    exact (yields_flag base false).bind hrest
  · by_cases hmiddle : length < 18
    · have hrest := (yields_number (base + 130 + posState * 8) (w := 3) (n := length - 10)
        (by omega)).map (· + 10)
      rw [Nat.sub_add_cancel (by omega)] at hrest
      rw [lengthAnswers, if_neg hshort, if_pos hmiddle]
      exact (yields_flag base true).bind ((yields_flag (base + 1) false).bind hrest)
    · have hrest := (yields_number (base + 258) (w := 8) (n := length - 18) (by omega)).map (· + 18)
      rw [Nat.sub_add_cancel (by omega)] at hrest
      rw [lengthAnswers, if_neg hshort, if_neg hmiddle]
      exact (yields_flag base true).bind ((yields_flag (base + 1) true).bind hrest)

/-- A large number lies in its range: its two highest bits name the range, and the place is what
they leave. -/
theorem rangeOf_spec {d : Nat} (h : 4 ≤ d) :
    ∃ width bit place, 1 ≤ width ∧ bit < 2 ∧ place < 2 ^ width ∧
      rangeOf d = 2 * (width + 1) + bit ∧ d = (2 + bit) * 2 ^ width + place := by
  have hne : d ≠ 0 := by omega
  have hlog : 2 ≤ Nat.log2 d := (Nat.le_log2 hne).2 h
  obtain ⟨width, hwidth⟩ : ∃ width, Nat.log2 d = width + 1 := ⟨Nat.log2 d - 1, by omega⟩
  have hlow : 2 ^ (width + 1) ≤ d := (Nat.le_log2 hne).1 (Nat.le_of_eq hwidth.symm)
  have hhigh : d < 2 ^ (width + 2) := (Nat.log2_lt hne).1 (by omega)
  have hpos : 0 < 2 ^ width := Nat.two_pow_pos width
  have hsplit := Nat.div_add_mod d (2 ^ width)
  have hquot : 2 ≤ d / 2 ^ width ∧ d / 2 ^ width < 4 :=
    ⟨(Nat.le_div_iff_mul_le hpos).2 (by rw [Nat.pow_succ] at hlow; omega),
      (Nat.div_lt_iff_lt_mul hpos).2 (by rw [Nat.pow_add] at hhigh; omega)⟩
  refine ⟨width, d / 2 ^ width % 2, d % 2 ^ width, by omega, Nat.mod_lt _ (by decide),
    Nat.mod_lt _ hpos, ?_, ?_⟩
  · rw [rangeOf, if_neg (by omega), hwidth, Nat.add_sub_cancel, Nat.shiftRight_eq_div_pow]
  · rw [show 2 + d / 2 ^ width % 2 = d / 2 ^ width by omega, Nat.mul_comm]
    exact hsplit.symm

theorem width_lt_of_lt {width bit place : Nat} (h : (2 + bit) * 2 ^ width + place < UInt32.size) :
    width < 31 := by
  by_contra hge
  have hpow : 2 ^ 31 ≤ 2 ^ width := Nat.pow_le_pow_right (by decide) (Nat.not_lt.1 hge)
  have htwice : 2 * 2 ^ width ≤ (2 + bit) * 2 ^ width := Nat.mul_le_mul_right _ (by omega)
  simp only [UInt32.size] at h
  omega

/-- The place in a far range: all but its four lowest bits go without a slot. -/
theorem yields_farPlace (first : Nat) {width place : Nat} (hwidth : 4 ≤ width)
    (hplace : place < 2 ^ width) :
    Yields (do
        let high ← uniform (width - 4)
        let low ← reversed Slot.distanceLow 4 1
        return first + high * 16 + low + 1)
      (highFirst (width - 4) (place / 16) ++ lowFirst 4 place) (first + place + 1) := by
  have hhigh : place / 16 < 2 ^ (width - 4) := by
    rw [Nat.div_lt_iff_lt_mul (by decide), show 16 = 2 ^ 4 from rfl, ← Nat.pow_add,
      Nat.sub_add_cancel hwidth]
    exact hplace
  have hfar := yields_uniform (width - 4) (place / 16)
  rw [Nat.mod_eq_of_lt hhigh] at hfar
  have hlow := (yields_reversed Slot.distanceLow 4 1 place).map
    fun low => first + place / 16 * 16 + low + 1
  rw [show first + place / 16 * 16 + place % 2 ^ 4 + 1 = first + place + 1 by omega] at hlow
  exact hfar.bind hlow

theorem yields_distanceProgram (length : Nat) {distance : Nat} (hmin : 1 ≤ distance)
    (hmax : distance ≤ UInt32.size) :
    (distanceProgram length).Yields (distanceAnswers distance) distance := by
  obtain ⟨d, rfl⟩ : ∃ d, distance = d + 1 := ⟨distance - 1, by omega⟩
  simp only [distanceAnswers, Nat.add_sub_cancel]
  by_cases hsmall : d < 4
  · have hrange : rangeOf d = d := by rw [rangeOf, if_pos hsmall]
    rw [hrange, if_pos hsmall]
    refine (yields_number _ (w := 6) (by omega)).bind ?_
    simpa only [hsmall, if_true] using yields_pure (d + 1)
  · obtain ⟨width, bit, place, hwidth, hbit, hplace, hrange, hd⟩ :=
      rangeOf_spec (Nat.not_lt.1 hsmall)
    have hhalf : (2 * (width + 1) + bit) / 2 - 1 = width := by omega
    have hodd : (2 * (width + 1) + bit) % 2 = bit := by omega
    have hfirst : d - (2 + bit) <<< width = place := by
      rw [Nat.shiftLeft_eq]
      omega
    have hvalue : (2 + bit) <<< width + place + 1 = d + 1 := by
      rw [Nat.shiftLeft_eq]
      omega
    have hwide : width < 31 := width_lt_of_lt (hd ▸ hmax)
    have hlarge : ¬ 2 * (width + 1) + bit < 4 := by omega
    rw [hrange, hhalf, hodd, hfirst, if_neg hlarge]
    refine (yields_number _ (w := 6) (n := 2 * (width + 1) + bit) (by omega)).bind ?_
    simp only [hlarge, if_false, hhalf, hodd]
    by_cases hnear : 2 * (width + 1) + bit < 14
    · simp only [hnear, if_true]
      have hrest := (yields_reversed (Slot.distancePlace + (2 + bit) <<< width -
        (2 * (width + 1) + bit)) width 1 place).map fun low => (2 + bit) <<< width + low + 1
      rwa [Nat.mod_eq_of_lt hplace, hvalue] at hrest
    · simp only [hnear, if_false]
      rw [← hvalue]
      exact yields_farPlace _ (by omega) hplace

/-! ### Packets -/

def Expressible : Lz77.Token → Prop
  | .literal _ => True
  | .copy length distance =>
    2 ≤ length ∧ length ≤ 273 ∧ 1 ≤ distance ∧ distance ≤ UInt32.size

/-- The answers of a token make its packet be read, in every context. -/
theorem yields_packet (c : Context) {token : Lz77.Token} (h : Expressible token) :
    (Packet.program c).Yields (answers token) (Packer.packet token) := by
  cases token with
  | literal b =>
    refine (yields_flag _ false).bind ?_
    have hbyte := (yields_byteProgram c.byteSlots 8 1 b.toNat
      (if c.history.afterByte then none else some c.matched.toNat)).map
      fun n => Packet.literal (UInt8.ofNat n)
    have hvalue : UInt8.ofNat (1 * 2 ^ 8 + b.toNat % 2 ^ 8) = b := by
      apply UInt8.toNat_inj.1
      have hlt := b.toNat_lt
      simp only [UInt8.toNat_ofNat']
      omega
    rwa [hvalue] at hbyte
  | copy length distance =>
    obtain ⟨hmin, hmax, hdist, hfar⟩ := h
    have hlength := yields_lengthProgram Slot.newLength c.posState hmin hmax
    have hdistance := (yields_distanceProgram length hdist hfar).map fun d => Packet.fresh length d
    simp only [answers, List.cons_append, List.nil_append]
    exact (yields_flag _ true).bind ((yields_flag _ false).bind (hlength.bind hdistance))

end SectionArchive.Lzma
