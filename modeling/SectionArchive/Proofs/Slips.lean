import Mathlib
import SectionArchive.Proofs.ReferenceChecksums
/-!
Slips of the pen under the weak checksum. One byte in the place of another changes any checksum.
Other bytes in the place of several go unnoticed just if both sums over that place come out the same
modulo 2^16, whatever stands around it; of two neighbours that have changed places the weighted sums
are as far apart as the bytes themselves. So no slip passes, however often the sums have wrapped.
-/

namespace SectionArchive

/-- One byte is another one, or two neighbours that differ have changed places. -/
inductive Bytes.Slip : Bytes → Bytes → Prop
  | replaced (p s : Bytes) {x y : UInt8} (h : x ≠ y) : Slip (p ++ x :: s) (p ++ y :: s)
  | exchanged (p s : Bytes) {x y : UInt8} (h : x ≠ y) : Slip (p ++ x :: y :: s) (p ++ y :: x :: s)

namespace Weak

theorem ofNat_eq_ofNat_iff (m n : Nat) :
    UInt16.ofNat m = UInt16.ofNat n ↔ m ≡ n [MOD 2 ^ 16] := by
  rw [← UInt16.toNat_inj, UInt16.toNat_ofNat', UInt16.toNat_ofNat', Nat.ModEq]

theorem foldl_update_eq_iff {u v : Bytes} (hlength : u.length = v.length) (s : Sums) :
    u.foldl Sums.update s = v.foldl Sums.update s ↔
      byteSum u ≡ byteSum v [MOD 2 ^ 16] ∧ weightedSum u ≡ weightedSum v [MOD 2 ^ 16] := by
  rw [foldl_update_eq, foldl_update_eq, hlength, Sums.mk.injEq, UInt16.add_right_inj,
    UInt16.add_right_inj, ofNat_eq_ofNat_iff, ofNat_eq_ofNat_iff]

end Weak

namespace Checksum

open Weak (byteSum weightedSum)

variable {x y : UInt8}

/-- Other bytes in a place go unnoticed just if both sums over the place are what they were. -/
theorem checksum_weak_eq_iff (p s : Bytes) {u v : Bytes} (hlength : u.length = v.length) :
    checksum .weak (p ++ u ++ s) = checksum .weak (p ++ v ++ s) ↔
      byteSum u ≡ byteSum v [MOD 2 ^ 16] ∧ weightedSum u ≡ weightedSum v [MOD 2 ^ 16] := by
  have hsums : ∀ w : Bytes, checksum .weak (p ++ w ++ s) = (s.foldl Weak.Sums.update
      (w.foldl Weak.Sums.update (p.foldl Weak.Sums.update {}))).finish := by
    intro w
    rw [checksum, Running.push_append, Running.push_append]
    simp only [Kind.start, Running.push, Running.finish]
  rw [hsums, hsums, Weak.finish_injective.eq_iff, (foldl_injective Weak.update_injective s).eq_iff,
    Weak.foldl_update_eq_iff hlength]

theorem checksum_weak_replaced_ne (p s : Bytes) (h : x ≠ y) :
    checksum .weak (p ++ y :: s) ≠ checksum .weak (p ++ x :: s) := by
  have hinside : p.length < (p ++ x :: s).length := by
    rw [List.length_append, List.length_cons]
    omega
  have hold : (p ++ x :: s)[p.length] = x := List.getElem_of_append rfl rfl
  have hset : (p ++ x :: s).set p.length y = p ++ y :: s := by
    rw [List.set_append_right p.length y (Nat.le_refl _), Nat.sub_self, List.set_cons_zero]
  rw [← hset]
  exact checksum_set_ne (by decide) hinside (by rw [hold]; exact h)

theorem checksum_weak_exchanged_ne (p s : Bytes) (h : x ≠ y) :
    checksum .weak (p ++ y :: x :: s) ≠ checksum .weak (p ++ x :: y :: s) := by
  intro hsame
  have hx := x.toNat_lt
  have hy := y.toNat_lt
  have hlength : [y, x].length = [x, y].length := rfl
  have hplace : ∀ a b : UInt8, p ++ a :: b :: s = p ++ [a, b] ++ s := by
    intro a b
    rw [List.append_assoc, List.cons_append, List.singleton_append]
  rw [hplace, hplace, checksum_weak_eq_iff p s hlength] at hsame
  have hweights := hsame.2
  simp only [Nat.ModEq, Weak.weightedSum_cons, List.length_cons, List.length_nil] at hweights
  exact h (UInt8.toNat_inj.1 (by omega))

/-- The weak checksum notices every slip, in a text of any length, and verification refuses what
came of it. -/
theorem weak_notices_slips {a b : Bytes} (h : a.Slip b) :
    checksum .weak b ≠ checksum .weak a ∧ verify .weak (checksum .weak a) b = false := by
  have hne : checksum .weak b ≠ checksum .weak a := by
    cases h with
    | replaced p s h => exact checksum_weak_replaced_ne p s h
    | exchanged p s h => exact checksum_weak_exchanged_ne p s h
  exact ⟨hne, verify_eq_false_of_ne (by decide) hne⟩

/-- For one, behind three hundred bytes whose sum no longer fits in sixteen bits. -/
theorem weak_notices_slips_behind_wrapped_sums :
    let p : Bytes := List.replicate 300 255
    let a : Bytes := p ++ [7, 8]
    let b : Bytes := p ++ [9, 8]
    let c : Bytes := p ++ [8, 7]
    2 ^ 16 ≤ Weak.byteSum p ∧ a.Slip b ∧ a.Slip c ∧
      checksum .weak b ≠ checksum .weak a ∧ verify .weak (checksum .weak a) b = false ∧
      checksum .weak c ≠ checksum .weak a ∧ verify .weak (checksum .weak a) c = false := by
  intro p a b c
  have hwrapped : 2 ^ 16 ≤ Weak.byteSum p := by
    simp only [p, Weak.byteSum, Fin.getElem_fin, List.getElem_replicate, Finset.sum_const,
      Finset.card_univ, Fintype.card_fin, List.length_replicate]
    decide
  have hreplaced : a.Slip b := .replaced p [8] (by decide)
  have hexchanged : a.Slip c := .exchanged p [] (by decide)
  obtain ⟨hb, hrefusedb⟩ := weak_notices_slips hreplaced
  obtain ⟨hc, hrefusedc⟩ := weak_notices_slips hexchanged
  exact ⟨hwrapped, hreplaced, hexchanged, hb, hrefusedb, hc, hrefusedc⟩

end Checksum

end SectionArchive
