import Mathlib
/-!
Lists that go in step: a relation holds between them index by index. What is done to both at one
index keeps them in step.
-/

namespace SectionArchive

variable {α β γ : Type} {r : α → β → Prop} {p : List α} {q : List β}

theorem forall₂_getElem? (h : List.Forall₂ r p q) (i : Nat) :
    (p[i]? = none ∧ q[i]? = none) ∨ ∃ a b, p[i]? = some a ∧ q[i]? = some b ∧ r a b := by
  induction h generalizing i with
  | nil => exact .inl ⟨rfl, rfl⟩
  | @cons a b _ _ hab _ ih =>
    cases i with
    | zero => exact .inr ⟨a, b, rfl, rfl, hab⟩
    | succ i => exact ih i

/-- What stands in the second list has its partner at the same index of the first. For the other way
round the lists are flipped. -/
theorem exists_getElem?_of_forall₂ (h : List.Forall₂ r p q) {i : Nat} {b : β}
    (hb : q[i]? = some b) : ∃ a, p[i]? = some a ∧ r a b := by
  rcases forall₂_getElem? h i with ⟨-, hnone⟩ | ⟨a, b', ha, hb', hab⟩
  · rw [hb] at hnone
    cases hnone
  · rw [hb, Option.some.injEq] at hb'
    subst hb'
    exact ⟨a, ha, hab⟩

theorem exists_mem_of_forall₂ (h : List.Forall₂ r p q) {b : β} (hb : b ∈ q) : ∃ a ∈ p, r a b := by
  obtain ⟨i, hi⟩ := List.mem_iff_getElem?.1 hb
  obtain ⟨a, ha, hab⟩ := exists_getElem?_of_forall₂ h hi
  exact ⟨a, List.mem_of_getElem? ha, hab⟩

theorem forall₂_set_set (h : List.Forall₂ r p q) {a : α} {b : β} (hab : r a b) (i : Nat) :
    List.Forall₂ r (p.set i a) (q.set i b) := by
  induction h generalizing i with
  | nil => exact .nil
  | cons hxy hrest ih =>
    cases i with
    | zero => exact .cons hab hrest
    | succ i => exact .cons hxy (ih i)

theorem forall₂_set {r : α → α → Prop} (hrefl : ∀ a, r a a) {i : Nat} {a b : α}
    (hi : p[i]? = some a) (hab : r a b) : List.Forall₂ r p (p.set i b) := by
  obtain ⟨hlt, rfl⟩ := List.getElem?_eq_some_iff.1 hi
  have hsame : List.Forall₂ r p p := List.forall₂_same.2 fun a _ => hrefl a
  simpa only [List.set_getElem_self] using forall₂_set_set hsame hab i

theorem forall₂_eraseIdx (h : List.Forall₂ r p q) (i : Nat) :
    List.Forall₂ r (p.eraseIdx i) (q.eraseIdx i) := by
  induction h generalizing i with
  | nil => exact .nil
  | cons hxy hrest ih =>
    cases i with
    | zero => exact hrest
    | succ i => exact .cons hxy (ih i)

theorem forall₂_comp {s : β → γ → Prop} {t : α → γ → Prop} (h : ∀ a b c, r a b → s b c → t a c)
    {l : List γ} (hpq : List.Forall₂ r p q) (hql : List.Forall₂ s q l) : List.Forall₂ t p l := by
  induction hpq generalizing l with
  | nil =>
    cases hql
    exact .nil
  | cons hab _ ih =>
    cases hql with
    | cons hbc hrest => exact .cons (h _ _ _ hab hbc) (ih hrest)

/-- Two lists that go in step are zipped into one that goes in step with what one of them was made
from. -/
theorem forall₂_zipWith {δ ε ζ : Type} {t : γ → δ → Prop} {v : ε → ζ → Prop} {k : α → γ → ε}
    {g : β → δ} {f : β → ζ} (h : ∀ a b c, r a b → t c (g b) → v (k a c) (f b)) {u : List γ}
    (hpq : List.Forall₂ r p q) (huq : List.Forall₂ t u (q.map g)) :
    List.Forall₂ v (List.zipWith k p u) (q.map f) := by
  induction hpq generalizing u with
  | nil =>
    cases huq
    exact .nil
  | cons hab _ ih =>
    cases huq with
    | cons hcb hrest => exact .cons (h _ _ _ hab hcb) (ih hrest)

end SectionArchive
