import Mathlib
import SectionArchive.Proofs.Writing
/-!
Writers inside writers. A wrapper passes on what it is offered, gives the answer of the writer
inside it, and keeps books of its own. As long as it does so, a run of requests to the wrapper is
the same run of requests to the writer inside, books apart.
-/

namespace SectionArchive

def inside {ε α σ τ : Type} (inner : τ → σ) : EStateM.Result ε τ α → EStateM.Result ε σ α
  | .ok a t => .ok a (inner t)
  | .error e t => .error e (inner t)

variable {σ τ : Type} {w : Writer σ} {v : Writer τ} {inner : τ → σ} {P : τ → Bytes → Prop}
  {t : τ}

namespace Writer

/-- As long as `P` holds of the state of `v` and of what is to come, `v` answers as the writer `w`
inside it does. -/
structure Wraps (v : Writer τ) (w : Writer σ) (inner : τ → σ) (P : τ → Bytes → Prop) : Prop where
  same : ∀ {t data rest}, data ≠ [] → P t (data ++ rest) →
    inside inner (v data t) = w data (inner t)
  keeps : ∀ {t data rest n t'}, P t (data ++ rest) → v data t = .ok n t' →
    P t' (data.drop n ++ rest)

theorem Wraps.writeAll (h : v.Wraps w inner P) (data rest : Bytes) (ht : P t (data ++ rest)) :
    inside inner (v.writeAll data t) = w.writeAll data (inner t) ∧
      ∀ t', v.writeAll data t = .ok () t' → P t' rest := by
  -- Both runs make the same request first; if it takes something, less is left to offer.
  induction hlen : data.length using Nat.strongRecOn generalizing data t with
  | ind len ih =>
    by_cases hdata : data = []
    · subst hdata
      rw [writeAll_nil, writeAll_nil]
      refine ⟨rfl, fun t' hok => ?_⟩
      cases hok
      exact ht
    · have hsame := h.same hdata ht
      cases hwrite : v data t with
      | error f t' =>
        rw [hwrite] at hsame
        rw [writeAll_of_error hdata hwrite, writeAll_of_error hdata hsame.symm]
        refine ⟨rfl, fun t'' hok => ?_⟩
        cases hok
      | ok n t' =>
        rw [hwrite] at hsame
        by_cases hn : n = 0
        · subst hn
          rw [writeAll_of_stalled hdata hwrite, writeAll_of_stalled hdata hsame.symm]
          refine ⟨rfl, fun t'' hok => ?_⟩
          cases hok
        · have hpos := List.length_pos_iff.2 hdata
          rw [writeAll_of_ok hdata hwrite hn, writeAll_of_ok hdata hsame.symm hn]
          exact ih (data.drop n).length (by rw [List.length_drop]; omega) (data.drop n)
            (h.keeps ht hwrite) rfl

theorem Wraps.writePieces (h : v.Wraps w inner P) (pieces : List Bytes)
    (ht : P t pieces.flatten) :
    inside inner (v.writePieces pieces t) = w.writePieces pieces (inner t) := by
  induction pieces generalizing t with
  | nil => rfl
  | cons p rest ih =>
    obtain ⟨hfirst, hkeeps⟩ := h.writeAll p rest.flatten ht
    cases hwrite : v.writeAll p t with
    | error f t' =>
      rw [hwrite] at hfirst
      rw [writePieces_cons_of_error hwrite, writePieces_cons_of_error hfirst.symm]
      rfl
    | ok u t' =>
      rw [hwrite] at hfirst
      rw [writePieces_cons_of_ok hwrite, writePieces_cons_of_ok hfirst.symm]
      exact ih (hkeeps t' hwrite)

end Writer

/-- So does a stream that is unpacked through the wrapper. -/
theorem Codec.inside_decompressStream (h : v.Wraps w inner P) (method : Option Method)
    (source : Source) (ht : P t (Delivery.unpack method source).output) :
    inside inner (Codec.decompressStream method source v t) =
      Codec.decompressStream method source w (inner t) := by
  have hsame := h.writePieces (Delivery.unpack method source).pieces ht
  simp only [decompressStream, asError, forward]
  rw [← hsame]
  cases v.writePieces (Delivery.unpack method source).pieces t with
  | error f t' => rfl
  | ok u t' =>
    simp only [inside]
    cases (Delivery.unpack method source).failure <;> rfl

end SectionArchive
