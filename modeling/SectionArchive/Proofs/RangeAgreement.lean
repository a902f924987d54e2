import Mathlib
import SectionArchive.Lzma.RangeDecoder
import SectionArchive.Proofs.RangeInterval
/-!
A range decoder follows the encoder that wrote its data. At every answer both have the same range
and the same probabilities, and the decoder's code is the distance of the data from the encoder's
lower end; as the data lies in the interval that the answer selected, the decoder gives that answer.
-/

namespace SectionArchive.Lzma

/-- The decoder is where the encoder was, reading `out` from place `start` of the input, with `rest`
behind it. -/
structure Follows (d : RangeDecoder) (e : RangeEncoder) (out rest : Bytes) (start : Nat) :
    Prop where
  range_eq : d.range = e.range
  probs_eq : d.probs = e.probs
  code_eq : d.code + e.lower = leading out e.width
  input_eq : d.input = out.drop e.width ++ rest
  budget_eq : d.budget + e.width = out.length
  taken_eq : d.taken = start + e.width

variable {d : RangeDecoder} {e : RangeEncoder} {out rest : Bytes} {start : Nat}

namespace RangeDecoder

theorem takeByte_cons {b : UInt8} {input : Bytes} {budget : Nat}
    (hinput : d.input = b :: input) (hbudget : d.budget = budget + 1) :
    d.takeByte = .ok b { d with input, taken := d.taken + 1, budget } := by
  simp only [takeByte, hinput, hbudget]

theorem normalize_of_lt {b : UInt8} {input : Bytes} {budget : Nat} (h : d.range < narrow)
    (hinput : d.input = b :: input) (hbudget : d.budget = budget + 1)
    (hcode : d.code * 256 + b.toNat < UInt32.size) :
    d.normalize = .ok () { d with
      input, taken := d.taken + 1, budget
      range := d.range * 256, code := d.code * 256 + b.toNat } := by
  have hmod := Nat.mod_eq_of_lt hcode
  -- The modulus stays a variable: reducing with the number itself would count it down.
  simp only [normalize, bind, EStateM.bind, get, getThe, MonadStateOf.get, EStateM.get, h, if_true]
  generalize UInt32.size = size at *
  simp only [takeByte_cons hinput hbudget, modify, modifyGet, MonadStateOf.modifyGet,
    EStateM.modifyGet, hmod]

theorem normalize_of_not_lt (h : ¬ d.range < narrow) : d.normalize = .ok () d := by
  simp only [normalize, bind, EStateM.bind, get, getThe, MonadStateOf.get, EStateM.get, h, if_false,
    pure, EStateM.pure]

end RangeDecoder

theorem Follows.normalize (hf : Follows d e out rest start) (h : e.Sound)
    (hout : e.normalize.Holds out) :
    ∃ d', d.normalize = .ok () d' ∧ Follows d' e.normalize out rest start := by
  obtain ⟨hrange, hprobs, hcode, hinput, hbudget, htaken⟩ := hf
  by_cases hnarrow : e.range < narrow
  · rw [RangeEncoder.normalize_of_lt hnarrow] at hout ⊢
    obtain ⟨hwidth, hlow, hhigh⟩ := hout
    change e.width + 1 ≤ out.length at hwidth
    change e.shift.lower ≤ leading out (e.width + 1) at hlow
    change leading out (e.width + 1) < e.shift.lower + e.range * 256 at hhigh
    rw [RangeEncoder.lower_shift h.low_lt, leading_succ (by omega)] at hlow hhigh
    rw [List.drop_eq_getElem_cons (by omega), List.cons_append] at hinput
    have hlength : e.width < out.length := by omega
    have hbyte := out[e.width].toNat_lt
    have hsmall : d.code * 256 + out[e.width].toNat < UInt32.size := by
      calc d.code * 256 + out[e.width].toNat
        _ < e.range * 256 := by linarith
        _ ≤ narrow * 256 := Nat.mul_le_mul_right 256 (Nat.le_of_lt hnarrow)
        _ = UInt32.size := rfl
    have hnext := RangeDecoder.normalize_of_lt (hrange.symm ▸ hnarrow) hinput
      (show d.budget = d.budget - 1 + 1 by omega) hsmall
    refine ⟨_, hnext, by rw [hrange], hprobs, ?_, rfl, ?_, ?_⟩
    · change d.code * 256 + out[e.width].toNat + e.shift.lower =
        leading out (e.width + 1)
      rw [RangeEncoder.lower_shift h.low_lt, leading_succ (by omega)]
      omega
    · change d.budget - 1 + (e.width + 1) = out.length
      omega
    · change d.taken + 1 = start + (e.width + 1)
      omega
  · rw [RangeEncoder.normalize_of_not_lt hnarrow]
    exact ⟨d, RangeDecoder.normalize_of_not_lt (hrange.symm ▸ hnarrow), hrange, hprobs, hcode,
      hinput, hbudget, htaken⟩

namespace RangeDecoder

theorem modifyGet_ite {α : Type} (c : RangeDecoder → Prop) [DecidablePred c]
    (f g : RangeDecoder → α × RangeDecoder) (d : RangeDecoder) :
    (modifyGet (fun s => if c s then f s else g s) : RangeDecode α) d =
      if c d then .ok (f d).1 (f d).2 else .ok (g d).1 (g d).2 := by
  by_cases h : c d
  · simp [modifyGet, MonadStateOf.modifyGet, EStateM.modifyGet, h]
  · simp [modifyGet, MonadStateOf.modifyGet, EStateM.modifyGet, h]

/-- A question with a slot splits the range by the slot's probability. -/
theorem decide_some {d' : RangeDecoder} (h : d.normalize = .ok () d') (i : Nat) :
    decide (some i) d =
      let p := d'.probs.getD i evenOdds
      let bound := d'.range / 2048 * p
      if d'.code < bound then
        .ok false { d' with range := bound, probs := d'.probs.setIfInBounds i (adapt p false) }
      else .ok true { d' with
        range := d'.range - bound
        code := d'.code - bound
        probs := d'.probs.setIfInBounds i (adapt p true) } := by
  simp only [decide, bind, EStateM.bind, h, modifyGet_ite]

/-- A question without a slot halves the range. -/
theorem decide_none {d' : RangeDecoder} (h : d.normalize = .ok () d') :
    decide none d =
      let half := d'.range / 2
      let above := (d'.code + UInt32.size - half) % UInt32.size
      if above < UInt32.size / 2 then .ok true { d' with range := half, code := above }
      else .ok false { d' with range := half } := by
  simp only [decide, bind, EStateM.bind, h, modifyGet_ite]

end RangeDecoder

theorem above_of_le {code half size : Nat} (h : half ≤ code) (hlt : code < size) :
    (code + size - half) % size = code - half := by
  rw [show code + size - half = code - half + size by omega, Nat.add_mod_right,
    Nat.mod_eq_of_lt (by omega)]

theorem above_of_lt {code half size : Nat} (h : code < half) (hhalf : half ≤ size / 2) :
    size / 2 ≤ (code + size - half) % size := by
  rw [Nat.mod_eq_of_lt (by omega)]
  omega

theorem width_code (h : e.Sound) (slot : Option Nat) (bit : Bool) :
    (e.code slot bit).width = e.normalize.width := by
  obtain ⟨-, -, -, hwritten, -⟩ := RangeEncoder.code_eq h slot bit
  simp only [RangeEncoder.width, hwritten]

/-- The decoder's value lies in the part of the range that belongs to the answer. -/
theorem Follows.code_mem_part (hf : Follows d e.normalize out rest start) (h : e.Sound)
    {slot : Option Nat} {bit : Bool} (hout : (e.code slot bit).Holds out) :
    (e.normalize.part slot bit).1 ≤ d.code ∧
      d.code < (e.normalize.part slot bit).1 + (e.normalize.part slot bit).2 := by
  obtain ⟨hlower, hrange, -⟩ := RangeEncoder.code_eq h slot bit
  have hcode := hf.code_eq
  have hle := hout.lower_le
  have hlt := hout.lt_upper
  rw [width_code h, hlower, ← hcode] at hle
  rw [width_code h, hlower, hrange, ← hcode] at hlt
  omega

/-- A decoder that narrows its range to the same part goes on following. -/
theorem Follows.narrow (hf : Follows d e.normalize out rest start) (h : e.Sound)
    (slot : Option Nat) (bit : Bool) {code : Nat} {probs : Array Nat}
    (hcode : code + (e.normalize.part slot bit).1 = d.code)
    (hprobs : probs = e.normalize.learned slot bit) :
    Follows { d with range := (e.normalize.part slot bit).2, code, probs } (e.code slot bit) out
      rest start := by
  obtain ⟨hlower, hrange, -, -, hlearned⟩ := RangeEncoder.code_eq h slot bit
  obtain ⟨-, -, hfollowed, hinput, hbudget, htaken⟩ := hf
  rw [← width_code h slot bit] at hfollowed hinput hbudget htaken
  refine ⟨hrange.symm, hprobs.trans hlearned.symm, ?_, hinput, hbudget, htaken⟩
  change code + (e.code slot bit).lower = leading out (e.code slot bit).width
  omega

/-- The decoder gives the answer that the encoder coded. -/
theorem Follows.decide (hf : Follows d e out rest start) (h : e.Sound) {slot : Option Nat}
    {bit : Bool} (hout : (e.code slot bit).Holds out) :
    ∃ d', RangeDecoder.decide slot d = .ok bit d' ∧
      Follows d' (e.code slot bit) out rest start := by
  obtain ⟨d', hd', hf'⟩ := hf.normalize h (RangeEncoder.Holds.normalize_of_code h hout)
  obtain ⟨hlow, hhigh⟩ := hf'.code_mem_part h hout
  have hrange := hf'.range_eq
  have hprobs := hf'.probs_eq
  cases slot with
  | some i =>
    rw [RangeDecoder.decide_some hd' i, hrange, hprobs]
    cases bit with
    | false =>
      simp only [RangeEncoder.part, Bool.false_eq_true, if_false, Nat.zero_add] at hhigh
      simp only [hhigh, if_true]
      exact ⟨_, rfl, hf'.narrow h (some i) false rfl rfl⟩
    | true =>
      simp only [RangeEncoder.part, if_true] at hlow
      simp only [Nat.not_lt.2 hlow, if_false]
      exact ⟨_, rfl, hf'.narrow h (some i) true (Nat.sub_add_cancel hlow) rfl⟩
  | none =>
    -- A value below the half wraps around and shows in the topmost bit.
    have hsize : e.normalize.range / 2 ≤ UInt32.size / 2 :=
      Nat.div_le_div_right (Nat.le_of_lt h.normalize.range_lt)
    rw [RangeDecoder.decide_none hd', hrange]
    cases bit with
    | false =>
      simp only [RangeEncoder.part, Bool.false_eq_true, if_false, Nat.zero_add] at hhigh
      simp only [Nat.not_lt.2 (above_of_lt hhigh hsize), if_false]
      exact ⟨_, rfl, hf'.narrow h none false rfl hprobs⟩
    | true =>
      simp only [RangeEncoder.part, if_true, Option.isSome_none, Bool.false_eq_true, if_false]
        at hlow hhigh
      have hlt : d'.code < UInt32.size := by
        have hrange_lt := h.normalize.range_lt
        change d'.code < 4294967296
        omega
      have habove : d'.code - e.normalize.range / 2 < UInt32.size / 2 := by omega
      simp only [above_of_le hlow hlt, habove, if_true]
      exact ⟨_, rfl, hf'.narrow h none true (Nat.sub_add_cancel hlow) hprobs⟩

/-! ### Whole procedures -/

/-- The procedure asks for just these bits and ends with the value. -/
inductive Program.Yields {α : Type} : Program α → List Bool → α → Prop
  | done (a : α) : Yields (.done a) [] a
  | ask {slot : Option Nat} {next : Bool → Program α} {b : Bool} {bits : List Bool} {a : α}
      (h : Yields (next b) bits a) : Yields (.ask slot next) (b :: bits) a

/-- A procedure that was coded is run with the value it was coded for. -/
theorem Follows.run {α : Type} {p : Program α} {bits : List Bool} {a : α} (hp : p.Yields bits a)
    (hf : Follows d e out rest start) (h : e.Sound) (hout : (RangeEncoder.run p bits e).Holds out) :
    ∃ d', RangeDecoder.run p d = .ok a d' ∧
      Follows d' (RangeEncoder.run p bits e) out rest start := by
  induction hp generalizing d e with
  | done a => exact ⟨d, rfl, hf⟩
  | @ask slot next b bits a hp ih =>
    have hcoded := h.code slot b
    obtain ⟨d', hd', hf'⟩ := hf.decide h (RangeEncoder.Holds.of_run hcoded hout)
    obtain ⟨d'', hd'', hf''⟩ := ih hf' hcoded hout
    refine ⟨d'', ?_, hf''⟩
    simp only [RangeDecoder.run, bind, EStateM.bind, hd', hd'']

/-- Both start with the whole range; the first byte is zero. -/
theorem Follows.init {probs : Array Nat} (hout : RangeEncoder.Holds { probs } out) (rest : Bytes)
    (start : Nat) :
    ∃ d', RangeDecoder.start
        { input := out ++ rest, taken := start, budget := out.length, range := 0, code := 0
          probs } = .ok () d' ∧
      Follows d' { probs } out rest start := by
  obtain ⟨hwidth, -, hhigh⟩ := hout
  have hfresh := RangeEncoder.lower_fresh probs
  change 5 ≤ out.length at hwidth
  rw [hfresh, Nat.zero_add] at hhigh
  change leading out 5 < 4294967295 at hhigh
  obtain ⟨zero, a, b, c, d, more, rfl⟩ :
      ∃ zero a b c d more, out = zero :: a :: b :: c :: d :: more := by
    match out, hwidth with
    | zero :: a :: b :: c :: d :: more, _ => exact ⟨zero, a, b, c, d, more, rfl⟩
  have hleading : leading (zero :: a :: b :: c :: d :: more) 5 =
      (((zero.toNat * 256 + a.toNat) * 256 + b.toNat) * 256 + c.toNat) * 256 + d.toNat := by
    simp only [leading, List.take_succ_cons, List.take_zero, List.reverse_cons, List.reverse_nil,
      List.nil_append, List.cons_append, LittleEndian.decode]
    omega
  obtain rfl : zero = 0 := by
    apply UInt8.toNat_inj.1
    rw [hleading] at hhigh
    change zero.toNat = 0
    omega
  refine ⟨_, rfl, rfl, rfl, ?_, rfl, rfl, rfl⟩
  change (((a.toNat * 256 + b.toNat) * 256 + c.toNat) * 256 + d.toNat) +
    RangeEncoder.lower { probs } = leading (0 :: a :: b :: c :: d :: more) 5
  rw [hfresh, hleading, show (0 : UInt8).toNat = 0 from rfl]
  omega

/-- At the end of the data the decoder is content, and leaves what is behind. -/
theorem Follows.finish (hf : Follows d e e.finish rest start) (h : e.Sound) :
    ∃ d', d.finish = .ok () d' ∧ d'.input = rest ∧ d'.taken = start + e.finish.length ∧
      d'.probs = e.normalize.probs := by
  obtain ⟨hlen, hlead⟩ := RangeEncoder.leading_finish h
  have hrange := h.normalize.range_ge
  obtain ⟨d', hd', -, hprobs, hcode, hinput, hbudget, htaken⟩ :=
    hf.normalize h ⟨by omega, by omega, by omega⟩
  have hzero : d'.code = 0 := by omega
  have hnone : d'.budget = 0 := by omega
  refine ⟨d', ?_, ?_, by omega, hprobs⟩
  · simp only [RangeDecoder.finish, bind, EStateM.bind, hd', get, getThe, MonadStateOf.get,
      EStateM.get, hzero, hnone, ne_eq, not_true_eq_false, or_self, if_false, pure, EStateM.pure]
  · rw [hinput, ← hlen, List.drop_length, List.nil_append]

end SectionArchive.Lzma
