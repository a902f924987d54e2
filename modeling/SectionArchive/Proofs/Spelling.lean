import Mathlib
import SectionArchive.Stream.Lz77
/-!
What the token search guarantees. Whatever candidates it is given, its tokens spell the text
between two positions: each literal is the byte that stands there, and each copy repeats bytes that
were compared, within the limits of the encoding. A decoder that has the text up to a position and
obeys the next token has the text up to the next position.
-/

namespace SectionArchive.Lz77

/-- Tokens that stand for the bytes of `raw` from a position up to `stop`. -/
inductive Spells (limits : Limits) (raw : Array UInt8) (stop : Nat) : Nat → List Token → Prop
  | done : Spells limits raw stop stop []
  | literal {i : Nat} {rest : List Token} (hi : i < stop)
      (htail : Spells limits raw stop (i + 1) rest) :
      Spells limits raw stop i (.literal (raw.getD i 0) :: rest)
  | copy {i length distance : Nat} {rest : List Token} (hpos : 0 < length)
      (hmin : limits.minLength ≤ length) (hmax : length ≤ limits.maxLength)
      (hdist : 0 < distance) (hfar : distance ≤ limits.maxDistance) (hback : distance ≤ i)
      (hstop : i + length ≤ stop)
      (hsame : ∀ k, k < length → raw.getD (i + k) 0 = raw.getD (i + k - distance) 0)
      (htail : Spells limits raw stop (i + length) rest) :
      Spells limits raw stop i (.copy length distance :: rest)

theorem agreement_le (raw : Array UInt8) (i j limit : Nat) : agreement raw i j limit ≤ limit := by
  induction limit generalizing i j with
  | zero => simp [agreement]
  | succ n ih =>
    simp only [agreement]
    split
    · have := ih (i + 1) (j + 1)
      omega
    · omega

theorem getD_of_lt_agreement {raw : Array UInt8} {i j limit k : Nat}
    (hk : k < agreement raw i j limit) : raw.getD (i + k) 0 = raw.getD (j + k) 0 := by
  induction limit generalizing i j k with
  | zero => simp [agreement] at hk
  | succ n ih =>
    simp only [agreement] at hk
    split at hk
    · next h =>
      cases k with
      | zero => exact h.2
      | succ k =>
        have hrest := ih (i := i + 1) (j := j + 1) (k := k) (by omega)
        rwa [show i + 1 + k = i + (k + 1) by omega, show j + 1 + k = j + (k + 1) by omega] at hrest
    · omega

/-- A copy that is made is allowed, ends in time, and repeats bytes that are there. -/
theorem copyAt_eq_some {limits : Limits} {raw : Array UInt8} {found i stop length distance : Nat}
    (hi : i ≤ stop) (h : copyAt limits raw found i stop = some (length, distance)) :
    0 < length ∧ limits.minLength ≤ length ∧ length ≤ limits.maxLength ∧
      0 < distance ∧ distance ≤ limits.maxDistance ∧ distance ≤ i ∧ i + length ≤ stop ∧
      ∀ k, k < length → raw.getD (i + k) 0 = raw.getD (i + k - distance) 0 := by
  simp only [copyAt] at h
  split at h
  · simp at h
  · next hfound =>
    split at h
    · simp at h
    · next hn =>
      simp only [Option.some.injEq, Prod.mk.injEq] at h
      obtain ⟨hlen, hdist⟩ := h
      have hle := agreement_le raw i (found - 1) (min limits.maxLength (stop - i))
      refine ⟨by omega, by omega, by omega, by omega, by omega, by omega, by omega, ?_⟩
      intro k hk
      rw [show i + k - distance = found - 1 + k by omega]
      exact getD_of_lt_agreement (hlen.symm ▸ hk)

theorem exists_spells_tokensFrom (limits : Limits) (raw : Array UInt8) (found : Array Nat)
    (stop i : Nat) (done : Array Token) (hi : i ≤ stop) :
    ∃ tokens, (tokensFrom limits raw found stop i done).toList = done.toList ++ tokens ∧
      Spells limits raw stop i tokens := by
  fun_induction tokensFrom limits raw found stop i done with
  | case1 i done hlt length distance hc ih =>
    obtain ⟨hpos, hmin, hmax, hdist, hfar, hback, hstop, hsame⟩ := copyAt_eq_some hi hc
    obtain ⟨tokens, heq, htail⟩ := ih hstop
    exact ⟨.copy length distance :: tokens, by simpa using heq,
      .copy hpos hmin hmax hdist hfar hback hstop hsame htail⟩
  | case2 i done hlt hc ih =>
    obtain ⟨tokens, heq, htail⟩ := ih hlt
    exact ⟨.literal (raw.getD i 0) :: tokens, by simpa using heq, .literal hlt htail⟩
  | case3 i done hlt =>
    obtain rfl : i = stop := by omega
    exact ⟨[], by simp, .done⟩

/-- The tokens of a text spell the text. -/
theorem spells_tokensFrom (limits : Limits) (raw : Array UInt8) (found : Array Nat)
    {start stop : Nat} (h : start ≤ stop) :
    Spells limits raw stop start (tokensFrom limits raw found stop start #[]).toList := by
  obtain ⟨tokens, heq, hspells⟩ := exists_spells_tokensFrom limits raw found stop start #[] h
  rw [heq]
  exact hspells

/-- Every token stands for at least one byte. -/
theorem Spells.add_length_le {limits : Limits} {raw : Array UInt8} {stop i : Nat}
    {tokens : List Token} (h : Spells limits raw stop i tokens) : i + tokens.length ≤ stop := by
  induction h with
  | done => exact Nat.le_refl _
  | literal hi htail ih =>
    simp only [List.length_cons]
    omega
  | copy hpos hmin hmax hdist hfar hback hstop hsame htail ih =>
    simp only [List.length_cons]
    omega

/-! ### Obeying a token -/

theorem push_extract {raw : Array UInt8} {i : Nat} (hi : i < raw.size) :
    (raw.extract 0 i).push (raw.getD i 0) = raw.extract 0 (i + 1) := by
  have hget : raw.getD i 0 = raw[i] := by simp [Array.getD, hi]
  rw [hget, Array.push_extract_getElem, Nat.zero_min]

theorem getD_extract {raw : Array UInt8} {i j : Nat} (hj : j < i) (hi : i ≤ raw.size) :
    (raw.extract 0 i).getD j 0 = raw.getD j 0 := by
  simp [Array.getD, show j < raw.size by omega, show j < i by omega]

/-- A copy of compared bytes extends a prefix of the text to a longer one. -/
theorem copyFrom_extract {raw : Array UInt8} {distance length i : Nat} (hdist : 0 < distance)
    (hback : distance ≤ i) (hstop : i + length ≤ raw.size)
    (hsame : ∀ k, k < length → raw.getD (i + k) 0 = raw.getD (i + k - distance) 0) :
    copyFrom distance length (raw.extract 0 i) = raw.extract 0 (i + length) := by
  induction length generalizing i with
  | zero => rfl
  | succ n ih =>
    have hsize : (raw.extract 0 i).size = i := by simp; omega
    have hfirst := hsame 0 (by omega)
    simp only [Nat.add_zero] at hfirst
    rw [copyFrom, hsize, getD_extract (by omega) (by omega), ← hfirst, push_extract (by omega),
      ih (by omega) (by omega), Nat.add_assoc, Nat.add_comm 1 n]
    intro k hk
    have hnext := hsame (k + 1) (by omega)
    rwa [show i + 1 + k = i + (k + 1) by omega]

/-- Obeyed one after the other, tokens extend the text up to where they start to the text up to
where they stop. -/
theorem Spells.foldl_apply {limits : Limits} {raw : Array UInt8} {stop i : Nat}
    {tokens : List Token} (h : Spells limits raw stop i tokens) (hstop : stop ≤ raw.size) :
    tokens.foldl Token.apply (raw.extract 0 i) = raw.extract 0 stop := by
  induction h with
  | done => rfl
  | literal hi _ ih =>
    rw [List.foldl_cons, Token.apply, push_extract (by omega)]
    exact ih
  | copy hpos hmin hmax hdist hfar hback hinside hsame _ ih =>
    rw [List.foldl_cons, Token.apply, copyFrom_extract hdist hback (by omega) hsame]
    exact ih

/-- The tokens of a text expand to the text. -/
theorem expand_tokensFrom (limits : Limits) (raw : Array UInt8) (found : Array Nat) :
    expand (tokensFrom limits raw found raw.size 0 #[]).toList = raw := by
  have hspells := spells_tokensFrom limits raw found (Nat.zero_le raw.size)
  have hexpands := hspells.foldl_apply (Nat.le_refl _)
  rwa [Array.extract_size, Array.extract_zero] at hexpands

end SectionArchive.Lz77
