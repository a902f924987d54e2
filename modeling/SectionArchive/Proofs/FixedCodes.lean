import Mathlib
import SectionArchive.Deflate.Zlib
import SectionArchive.Proofs.InflateSteps
import SectionArchive.Proofs.Spelling
/-!
The fixed codes of deflate read back what they were used to write. A code book entry is a path of
the tree it was made from, every symbol in use has one, and the ranges of lengths and distances
leave no gap, so that range and place name each value that a copy can have.
-/

namespace SectionArchive.Deflate

/-! ### Code books -/

theorem foldl_setIfInBounds_not_mem {ws : List (Nat × List Bool)} {book : Array (List Bool)}
    {s : Nat} (h : s ∉ ws.map Prod.fst) :
    (ws.foldl (fun book w => book.setIfInBounds w.1 w.2) book).getD s [] = book.getD s [] := by
  induction ws generalizing book with
  | nil => rfl
  | cons w ws ih =>
    simp only [List.map_cons, List.mem_cons, not_or] at h
    rw [List.foldl_cons, ih h.2]
    simp [Array.getD_eq_getD_getElem?, Array.getElem?_setIfInBounds_ne (Ne.symm h.1)]

theorem mem_foldl_setIfInBounds {ws : List (Nat × List Bool)} {book : Array (List Bool)} {s : Nat}
    (hs : s < book.size) (h : s ∈ ws.map Prod.fst) :
    (s, (ws.foldl (fun book w => book.setIfInBounds w.1 w.2) book).getD s []) ∈ ws := by
  induction ws generalizing book with
  | nil => simp at h
  | cons w ws ih =>
    rw [List.foldl_cons]
    by_cases hrest : s ∈ ws.map Prod.fst
    · exact List.mem_cons_of_mem _ (ih (by simpa using hs) hrest)
    · simp only [List.map_cons, List.mem_cons, hrest, or_false] at h
      subst h
      rw [foldl_setIfInBounds_not_mem hrest]
      simp [Array.getD_eq_getD_getElem?, hs]

/-- The code book's entry for a symbol of the tree is a path to it. -/
theorem Tree.mem_words_codeBook {t : Tree} {n s : Nat} (hs : s < n)
    (h : s ∈ t.words.map Prod.fst) : (s, (t.codeBook n).getD s []) ∈ t.words :=
  mem_foldl_setIfInBounds (by simpa using hs) h

theorem literal_symbol : ∀ s < 288, s ∈ fixedLiterals.words.map Prod.fst := by decide +kernel

theorem distance_symbol : ∀ s < 32, s ∈ fixedDistances.words.map Prod.fst := by decide +kernel

theorem mem_literalWords {s : Nat} (hs : s < 288) :
    (s, Zlib.literalWords.getD s []) ∈ fixedLiterals.words :=
  Tree.mem_words_codeBook hs (literal_symbol s hs)

theorem mem_distanceWords {s : Nat} (hs : s < 32) :
    (s, Zlib.distanceWords.getD s []) ∈ fixedDistances.words :=
  Tree.mem_words_codeBook hs (distance_symbol s hs)

theorem literal_word_ne_nil : ∀ w ∈ fixedLiterals.words, 0 < w.2.length := by decide +kernel

/-! ### Ranges -/

/-- Ranges that follow each other without a gap, up to below `stop`. -/
def Tiles (stop : Nat) : List ValueRange → Prop
  | [] => False
  | [r] => stop ≤ r.base + 2 ^ r.extra
  | r :: r' :: rest => r.base < r'.base ∧ r'.base ≤ r.base + 2 ^ r.extra ∧ Tiles stop (r' :: rest)

instance (stop : Nat) : DecidablePred (Tiles stop) := fun rs => go rs
where
  go : (rs : List ValueRange) → Decidable (Tiles stop rs)
  | [] => inferInstanceAs (Decidable False)
  | [r] => inferInstanceAs (Decidable (stop ≤ r.base + 2 ^ r.extra))
  | r :: r' :: rest =>
    have := go (r' :: rest)
    inferInstanceAs (Decidable (r.base < r'.base ∧ r'.base ≤ r.base + 2 ^ r.extra ∧
      Tiles stop (r' :: rest)))

theorem Tiles.filter_eq_nil {stop value : Nat} {r : ValueRange} {rest : List ValueRange}
    (h : Tiles stop (r :: rest)) (hv : value < r.base) :
    (r :: rest).filter (fun r => r.base ≤ value) = [] := by
  induction rest generalizing r with
  | nil => simpa using hv
  | cons r' rest ih =>
    rw [List.filter_cons_of_neg (by simpa using hv)]
    exact ih h.2.2 (by have := h.1; omega)

/-- The last range that starts at or below a value holds it. -/
theorem Tiles.exists_range {stop value : Nat} {r : ValueRange} {rest : List ValueRange}
    (h : Tiles stop (r :: rest)) (hlow : r.base ≤ value) (hhigh : value < stop) :
    ∃ r', (r :: rest)[((r :: rest).filter fun r => r.base ≤ value).length - 1]? = some r' ∧
      r'.base ≤ value ∧ value - r'.base < 2 ^ r'.extra := by
  induction rest generalizing r with
  | nil =>
    have htop : stop ≤ r.base + 2 ^ r.extra := h
    exact ⟨r, by simp [hlow], hlow, by omega⟩
  | cons r' rest ih =>
    rw [List.filter_cons_of_pos (by simpa using hlow), List.length_cons, Nat.add_sub_cancel]
    by_cases hnext : r'.base ≤ value
    · obtain ⟨q, hq, hbase, hplace⟩ := ih h.2.2 hnext
      rw [List.filter_cons_of_pos (by simpa using hnext)] at hq ⊢
      exact ⟨q, by simpa using hq, hbase, hplace⟩
    · have htop := h.2.1
      rw [h.2.2.filter_eq_nil (by omega)]
      exact ⟨r, rfl, hlow, by omega⟩

theorem tiles_lengths : Tiles 259 lengthRanges.toList := by decide

theorem tiles_distances : Tiles 32769 distanceRanges.toList := by decide

/-- The range that is written for a value, and the value's place in it. -/
theorem exists_range {ranges : Array ValueRange} {stop value : Nat}
    (h : Tiles stop ranges.toList) (hlow : (ranges.getD 0 ⟨0, 0⟩).base ≤ value)
    (hhigh : value < stop) :
    ∃ r, ranges[rangeIndex ranges value]? = some r ∧ r.base ≤ value ∧
      value - r.base < 2 ^ r.extra := by
  obtain ⟨rs⟩ := ranges
  cases rs with
  | nil => exact h.elim
  | cons r rest => simpa only [List.getElem?_toArray, rangeIndex] using h.exists_range hlow hhigh

theorem reads_takeValue {ranges : Array ValueRange} {r : ValueRange} {index value : Nat}
    (hr : ranges[index]? = some r) (hbase : r.base ≤ value)
    (hplace : value - r.base < 2 ^ r.extra) (out : Array UInt8) :
    Reads (takeValue ranges index) (numberBits r.extra (value - r.base)) value out out := by
  have h := reads_map (reads_takeBits_of_lt hplace out) fun place => r.base + place
  rw [Nat.add_sub_cancel' hbase] at h
  simpa only [takeValue, hr] using h

/-! ### Tokens -/

theorem reads_literal {raw : Array UInt8} {i fuel : Nat} {bits : List Bool} {out : Array UInt8}
    (hi : i < raw.size)
    (hrest : Reads (takeSymbols fixedLiterals fixedDistances fuel) bits ()
      (raw.extract 0 (i + 1)) out) :
    Reads (takeSymbols fixedLiterals fixedDistances (fuel + 1))
      (Zlib.tokenBits (.literal (raw.getD i 0)) ++ bits) () (raw.extract 0 i) out := by
  have hbyte : (raw.getD i 0).toNat < endOfBlock := (raw.getD i 0).toNat_lt
  have hemit := reads_emit (raw.getD i 0) (raw.extract 0 i)
  rw [Lz77.push_extract hi] at hemit
  refine reads_bind (reads_decode (mem_literalWords (Nat.lt_trans hbyte (by decide))) _) ?_
  rw [if_pos hbyte, UInt8.ofNat_toNat]
  exact reads_bind hemit hrest

/-- A value is written as a symbol and a place, and read back from them. -/
theorem reads_valueBits (ranges : Array ValueRange) (words : Array (List Bool)) (t : Tree)
    (first : Nat) {stop value : Nat} (h : Tiles stop ranges.toList)
    (hwords : ∀ i < ranges.size, (first + i, words.getD (first + i) []) ∈ t.words)
    (hlow : (ranges.getD 0 ⟨0, 0⟩).base ≤ value) (hhigh : value < stop) :
    ∃ symbol word place, Zlib.valueBits ranges words first value = word ++ place ∧
      first ≤ symbol ∧ (∀ out, Reads t.decode word symbol out out) ∧
      ∀ out, Reads (takeValue ranges (symbol - first)) place value out out := by
  obtain ⟨r, hr, hbase, hplace⟩ := exists_range h hlow hhigh
  obtain ⟨hi, hget⟩ := Array.getElem?_eq_some_iff.1 hr
  refine ⟨first + rangeIndex ranges value, words.getD (first + rangeIndex ranges value) [],
    numberBits r.extra (value - r.base), ?_, by omega, reads_decode (hwords _ hi), ?_⟩
  · simp only [Zlib.valueBits, Array.getD_eq_getD_getElem?, hr, Option.getD_some]
  · rw [Nat.add_sub_cancel_left]
    exact reads_takeValue hr hbase hplace

theorem reads_copyToken {length distance fuel : Nat} {bits : List Bool} {before out : Array UInt8}
    (hmin : 3 ≤ length) (hmax : length ≤ 258) (hdist : 0 < distance) (hfar : distance ≤ 32768)
    (hback : distance ≤ before.size)
    (hrest : Reads (takeSymbols fixedLiterals fixedDistances fuel) bits ()
      (Lz77.copyFrom distance length before) out) :
    Reads (takeSymbols fixedLiterals fixedDistances (fuel + 1))
      (Zlib.tokenBits (.copy length distance) ++ bits) () before out := by
  have hlengths : ∀ i < lengthRanges.size,
      (firstLength + i, Zlib.literalWords.getD (firstLength + i) []) ∈ fixedLiterals.words := by
    intro i hi
    have hsize : i < 29 := hi
    exact mem_literalWords (by simp only [firstLength]; omega)
  have hdistances : ∀ i < distanceRanges.size,
      (0 + i, Zlib.distanceWords.getD (0 + i) []) ∈ fixedDistances.words := by
    intro i hi
    have hsize : i < 30 := hi
    exact mem_distanceWords (by omega)
  obtain ⟨symbol, word, place, hbits, hfirst, hsymbol, hlength⟩ :=
    reads_valueBits lengthRanges Zlib.literalWords fixedLiterals firstLength tiles_lengths hlengths
      hmin (Nat.lt_succ_of_le hmax)
  obtain ⟨symbol', word', place', hbits', hfirst', hsymbol', hdistance⟩ :=
    reads_valueBits distanceRanges Zlib.distanceWords fixedDistances 0 tiles_distances hdistances
      hdist (Nat.lt_succ_of_le hfar)
  simp only [Zlib.tokenBits, hbits, hbits', List.append_assoc]
  refine reads_bind (hsymbol before) ?_
  simp only [firstLength] at hfirst
  rw [if_neg (by simp only [endOfBlock]; omega), if_neg (by simp only [endOfBlock]; omega)]
  exact reads_bind (hlength before) (reads_bind (hsymbol' before) (reads_bind (hdistance before)
    (reads_bind (reads_copy hback) hrest)))

/-- Symbols written for tokens that spell a text bring the output to the end of the text. -/
theorem reads_takeSymbols {raw : Array UInt8} {i stop fuel : Nat} {tokens : List Lz77.Token}
    (h : Lz77.Spells Zlib.limits raw stop i tokens) (hstop : stop ≤ raw.size)
    (hfuel : tokens.length < fuel) :
    Reads (takeSymbols fixedLiterals fixedDistances fuel)
      (tokens.flatMap Zlib.tokenBits ++ Zlib.literalWords.getD endOfBlock []) ()
      (raw.extract 0 i) (raw.extract 0 stop) := by
  induction h generalizing fuel with
  | done =>
    cases fuel with
    | zero => omega
    | succ fuel =>
      rw [List.flatMap_nil, List.nil_append, ← List.append_nil (Zlib.literalWords.getD _ _)]
      refine reads_bind (reads_decode (mem_literalWords (by decide)) _) ?_
      rw [if_neg (Nat.lt_irrefl _), if_pos rfl]
      exact reads_pure () _
  | literal hi htail ih =>
    cases fuel with
    | zero => simp at hfuel
    | succ fuel =>
      simp only [List.flatMap_cons, List.append_assoc]
      exact reads_literal (by omega) (ih (by simpa using hfuel))
  | copy hpos hmin hmax hdist hfar hback hend hsame htail ih =>
    cases fuel with
    | zero => simp at hfuel
    | succ fuel =>
      simp only [List.flatMap_cons, List.append_assoc]
      refine reads_copyToken hmin hmax hdist hfar (by simp; omega) ?_
      rw [Lz77.copyFrom_extract hdist hback (by omega) hsame]
      exact ih (by simpa using hfuel)

end SectionArchive.Deflate
