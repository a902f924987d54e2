import Mathlib
import SectionArchive.Proofs.Opening
/-!
Which headers a directory may hold. A header is admitted when its flags select something, a stored
payload has one size, and the place of the payload lies in the container; the check reports the
first header that is not, its flags before its place. The end of a place is cut to the largest
offset, so against a container of just that size no place is out of bounds.
-/

namespace SectionArchive

namespace Directory

variable {fileSize : UInt64} {index : Nat} {h : SectionHeader} {e : Error}

structure Consistent (h : SectionHeader) : Prop where
  packing : h.flags &&& 0x3 ≠ 0x3
  checksum : h.flags &&& 0xC ≠ 0xC
  stored : h.flags &&& 0x3 = 0 → h.csize = h.size

/-- The place of the payload, its end not cut to any width, lies in a container of so many bytes. -/
def Inside (fileSize : UInt64) (h : SectionHeader) : Prop :=
  h.pointer.toNat + h.csize.toNat ≤ fileSize.toNat

structure Admitted (fileSize : UInt64) (h : SectionHeader) : Prop where
  consistent : Consistent h
  place : Inside fileSize h ∨ fileSize.toNat = UInt64.size - 1

/-- What is said against the header of section `index`, if it is not admitted. -/
inductive Objection (fileSize : UInt64) (index : Nat) (h : SectionHeader) : Error → Prop
  | flags (hflags : ¬ Consistent h) : Objection fileSize index h (.badFlags index h.flags)
  | place (hflags : Consistent h)
      (hplace : ¬ (Inside fileSize h ∨ fileSize.toNat = UInt64.size - 1)) :
      Objection fileSize index h (.sectionBounds index h.pointer h.stop fileSize)

theorem consistent_iff : Consistent h ↔
    ¬ (h.flags &&& 0x3 = 0x3 ∨ h.flags &&& 0xC = 0xC ∨
      h.flags &&& 0x3 = 0 ∧ h.csize ≠ h.size) := by
  constructor
  · rintro ⟨hpacking, hsum, hstored⟩ hbad
    rcases hbad with hboth | hboth | ⟨hnone, hsizes⟩
    · exact hpacking hboth
    · exact hsum hboth
    · exact hsizes (hstored hnone)
  · intro hgood
    refine ⟨fun hboth => hgood (.inl hboth), fun hboth => hgood (.inr (.inl hboth)), ?_⟩
    intro hnone
    by_contra hsizes
    exact hgood (.inr (.inr ⟨hnone, hsizes⟩))

/-- The two comparisons with an end that was cut make one with the exact end, but for the largest
size. -/
theorem inside_or_largest_iff : Inside fileSize h ∨ fileSize.toNat = UInt64.size - 1 ↔
    ¬ (fileSize.toNat < h.pointer.toNat ∨
      fileSize.toNat < min (h.pointer.toNat + h.csize.toNat) (UInt64.size - 1)) := by
  have hfile := fileSize.toNat_lt
  have hpointer := h.pointer.toNat_lt
  unfold Inside
  simp only [UInt64.size] at hfile hpointer ⊢
  omega

/-- The check of one header, as the first objection against it. -/
theorem refusal?_cases (fileSize : UInt64) (index : Nat) (h : SectionHeader) :
    Opening.refusal? fileSize index h = none ∧ Admitted fileSize h ∨
      ∃ e, Opening.refusal? fileSize index h = some e ∧ Objection fileSize index h e := by
  unfold Opening.refusal?
  by_cases hflags : Consistent h
  · rw [if_neg (consistent_iff.1 hflags)]
    by_cases hplace : Inside fileSize h ∨ fileSize.toNat = UInt64.size - 1
    · rw [if_neg (inside_or_largest_iff.1 hplace)]
      exact .inl ⟨rfl, hflags, hplace⟩
    · rw [if_pos (not_not.1 (mt inside_or_largest_iff.2 hplace))]
      exact .inr ⟨_, rfl, .place hflags hplace⟩
  · rw [if_pos (not_not.1 (mt consistent_iff.2 hflags))]
    exact .inr ⟨_, rfl, .flags hflags⟩

theorem Objection.not_admitted (hobjection : Objection fileSize index h e) :
    ¬ Admitted fileSize h := by
  intro hadmitted
  cases hobjection with
  | flags hflags => exact hflags hadmitted.consistent
  | place hflags hplace => exact hplace hadmitted.place

theorem Objection.unique {e' : Error} (hobjection : Objection fileSize index h e)
    (hobjection' : Objection fileSize index h e') : e' = e := by
  cases hobjection with
  | flags hflags =>
    cases hobjection' with
    | flags => rfl
    | place hflags' => exact absurd hflags' hflags
  | place hflags hplace =>
    cases hobjection' with
    | flags hflags' => exact absurd hflags hflags'
    | place => rfl

/-- A header passes the check just when it is admitted. -/
theorem checkHeader_eq_ok_iff :
    checkHeader fileSize index h = .ok () ↔ Admitted fileSize h := by
  rw [Opening.checkHeader_eq]
  rcases refusal?_cases fileSize index h with ⟨hnone, hadmitted⟩ | ⟨e, hsome, hobjection⟩
  · rw [hnone]
    exact ⟨fun _ => hadmitted, fun _ => rfl⟩
  · rw [hsome]
    refine ⟨fun hok => ?_, fun hadmitted => absurd hadmitted hobjection.not_admitted⟩
    cases hok

/-- A header fails the check with the objection against it. -/
theorem checkHeader_eq_error_iff :
    checkHeader fileSize index h = .error e ↔ Objection fileSize index h e := by
  rw [Opening.checkHeader_eq]
  rcases refusal?_cases fileSize index h with ⟨hnone, hadmitted⟩ | ⟨e', hsome, hobjection⟩
  · rw [hnone]
    refine ⟨fun herror => ?_, fun hobjection => absurd hadmitted hobjection.not_admitted⟩
    cases herror
  · rw [hsome]
    constructor
    · intro herror
      cases herror
      exact hobjection
    · intro hobjection'
      rw [hobjection'.unique hobjection]

theorem checkFrom_eq_ok_iff {headers : List SectionHeader} :
    checkFrom fileSize index headers = .ok () ↔ ∀ h ∈ headers, Admitted fileSize h := by
  induction headers generalizing index with
  | nil => exact ⟨fun _ _ hmem => absurd hmem List.not_mem_nil, fun _ => rfl⟩
  | cons h rest ih =>
    rw [checkFrom, List.forall_mem_cons, ← @checkHeader_eq_ok_iff fileSize index h]
    cases hcheck : checkHeader fileSize index h with
    | error e =>
      refine ⟨fun herror => ?_, fun hall => ?_⟩
      · cases herror
      · cases hall.1
    | ok u => exact ⟨fun hrest => ⟨rfl, ih.1 hrest⟩, fun hall => ih.2 hall.2⟩

/-- The check of a list stops at the first header that is not admitted. -/
theorem checkFrom_eq_error_iff {headers : List SectionHeader} :
    checkFrom fileSize index headers = .error e ↔
      ∃ before h behind, headers = before ++ h :: behind ∧ (∀ g ∈ before, Admitted fileSize g) ∧
        Objection fileSize (index + before.length) h e := by
  induction headers generalizing index with
  | nil =>
    refine ⟨fun herror => ?_, ?_⟩
    · cases herror
    · rintro ⟨before, h, behind, hsplit, -⟩
      cases before <;> cases hsplit
  | cons g rest ih =>
    rw [checkFrom]
    cases hcheck : checkHeader fileSize index g with
    | error e' =>
      have hfirst := checkHeader_eq_error_iff.1 hcheck
      constructor
      · intro herror
        cases herror
        exact ⟨[], g, rest, rfl, fun g hmem => absurd hmem List.not_mem_nil, hfirst⟩
      · rintro ⟨before, h, behind, hsplit, hbefore, hobjection⟩
        cases before with
        | nil =>
          cases hsplit
          rw [hfirst.unique hobjection]
        | cons g' before =>
          cases hsplit
          exact absurd (hbefore g List.mem_cons_self) hfirst.not_admitted
    | ok u =>
      have hfirst := checkHeader_eq_ok_iff.1 hcheck
      simp only [ih]
      constructor
      · rintro ⟨before, h, behind, rfl, hbefore, hobjection⟩
        refine ⟨g :: before, h, behind, rfl, List.forall_mem_cons.2 ⟨hfirst, hbefore⟩, ?_⟩
        rw [List.length_cons, Nat.add_comm before.length, ← Nat.add_assoc]
        exact hobjection
      · rintro ⟨before, h, behind, hsplit, hbefore, hobjection⟩
        cases before with
        | nil =>
          cases hsplit
          exact absurd hfirst hobjection.not_admitted
        | cons g' before =>
          cases hsplit
          refine ⟨before, h, behind, rfl, (List.forall_mem_cons.1 hbefore).2, ?_⟩
          rw [List.length_cons, Nat.add_comm before.length, ← Nat.add_assoc] at hobjection
          exact hobjection

/-- A directory passes its check just when each header is admitted, and fails it with the objection
against the first header that is not. -/
theorem validate_reports_first (d : Directory) (fileSize : UInt64) :
    (d.validate fileSize = .ok () ↔ ∀ h ∈ d.headers, Admitted fileSize h) ∧
      ∀ e, d.validate fileSize = .error e ↔
        ∃ before h behind, d.headers = before ++ h :: behind ∧
          (∀ g ∈ before, Admitted fileSize g) ∧ Objection fileSize before.length h e := by
  refine ⟨checkFrom_eq_ok_iff, fun e => ?_⟩
  have hfirst := @checkFrom_eq_error_iff fileSize 0 e d.headers
  simp only [Nat.zero_add] at hfirst
  exact hfirst

/-- A place that ends behind every offset is let through in a container of the largest size. -/
theorem overlong_place_is_admitted :
    let h : SectionHeader := { pointer := 0xFFFFFFFFFFFFFFFF, csize := 1, size := 1 }
    let d : Directory := { entries := [.ofStored h], maxSections := 1 }
    ¬ Inside 0xFFFFFFFFFFFFFFFF h ∧ d.validate 0xFFFFFFFFFFFFFFFF = .ok () := by
  refine ⟨?_, rfl⟩
  unfold Inside
  decide

end Directory

end SectionArchive
