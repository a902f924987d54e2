import Mathlib
import SectionArchive.Files.WorkingDirectory
/-!
What stands at a place and where a path leads, before and after a file is put somewhere. As long as
directories stay directories, every path leads to where it led; and a name behind a path that leads
to a directory leads into it.
-/

namespace SectionArchive

namespace WorkingDirectory

variable {d d' d'' : WorkingDirectory} {path : String} {place p : Place} {node : Node} {bs : Bytes}

/-! ### Nodes -/

theorem lookup_map_put (nodes : List (Place × Node)) (place : Place) (node : Node) (p : Place) :
    (nodes.map fun n => if n.1 = place then (place, node) else n).lookup p =
      if p = place ∧ nodes.any (·.1 = place) then some node else nodes.lookup p := by
  induction nodes with
  | nil => simp
  | cons n rest ih =>
    obtain ⟨q, m⟩ := n
    rw [List.map_cons, List.any_cons, List.lookup_cons]
    by_cases hp : p = q
    · subst hp
      by_cases hq : p = place
      · simp [hq]
      · simp [hq]
    · have hpq : (p == q) = false := beq_false_of_ne hp
      by_cases hq : q = place
      · subst hq
        simp only [if_true, List.lookup_cons, hpq, ih, hp, false_and, if_false]
      · simp only [hq, if_false, List.lookup_cons, hpq, ih, decide_false, Bool.false_or]

/-- Putting a node somewhere changes what stands there and nothing else. -/
theorem node?_put (hplace : place.isAnchor = false) (p : Place) :
    (d.put place node).node? p = if p = place then some node else d.node? p := by
  by_cases hp : p.isAnchor
  · have hne : p ≠ place := by
      rintro rfl
      rw [hplace] at hp
      cases hp
    unfold node?
    rw [if_pos hp, if_pos hp, if_neg hne]
  · unfold node?
    rw [if_neg hp, if_neg hp]
    unfold put
    split
    · next hany =>
      rw [lookup_map_put]
      simp only [hany, and_true]
    · next hany =>
      rw [List.lookup_append, List.lookup_cons]
      by_cases hpp : p = place
      · subst hpp
        have hnone : d.nodes.lookup p = none := by
          rw [List.lookup_eq_none_iff]
          intro n hn
          rw [Bool.not_eq_true, List.any_eq_false] at hany
          exact bne_iff_ne.2 fun heq => hany n hn (decide_eq_true heq.symm)
        simp [hnone]
      · have hpq : (p == place) = false := beq_false_of_ne hpp
        simp [hpq, hpp]

theorem isAnchor_of_node? (h : d.node? place ≠ some .directory) : place.isAnchor = false := by
  unfold node? at h
  split at h
  · exact absurd rfl h
  · next hanchor => exact Bool.not_eq_true _ ▸ hanchor

theorem content_of_node? (h : d.node? place = some (.file bs)) : d.content place = bs := by
  unfold content
  rw [h]

def KeepsDirectories (d d' : WorkingDirectory) : Prop :=
  ∀ p, d.node? p = some .directory → d'.node? p = some .directory

/-- A node may take the place of whatever is no directory. -/
theorem keepsDirectories_put (h : d.node? place ≠ some .directory) (node : Node) :
    KeepsDirectories d (d.put place node) := by
  intro p hp
  have hne : p ≠ place := by
    rintro rfl
    exact h hp
  rw [node?_put (isAnchor_of_node? h), if_neg hne]
  exact hp

/-- What a file leaves that was made, or emptied, and then written. -/
def written (d : WorkingDirectory) (place : Place) (bs : Bytes) : WorkingDirectory :=
  (d.put place (.file [])).put place (.file bs)

theorem node?_written (hplace : place.isAnchor = false) (p : Place) :
    (d.written place bs).node? p = if p = place then some (.file bs) else d.node? p := by
  unfold written
  rw [node?_put hplace, node?_put hplace]
  split
  · rfl
  · rfl

theorem keepsDirectories_written (h : d.node? place ≠ some .directory) (bs : Bytes) :
    KeepsDirectories d (d.written place bs) := by
  intro p hp
  have hne : p ≠ place := by
    rintro rfl
    exact h hp
  rw [node?_written (isAnchor_of_node? h), if_neg hne]
  exact hp

/-! ### Paths -/

theorem follow_of_keeps (h : KeepsDirectories d d') {parts : List String} {here : Place}
    (hf : d.follow parts here = .ok place) : d'.follow parts here = .ok place := by
  induction parts generalizing here with
  | nil => exact hf
  | cons part rest ih =>
    unfold follow at hf ⊢
    split at hf
    · cases hf
    · cases hf
    · next hdir =>
      rw [h _ hdir]
      simp only
      split_ifs at hf ⊢
      · exact ih hf
      · exact ih hf
      · exact ih hf

/-- A path leads where it led. -/
theorem resolve_of_keeps (h : KeepsDirectories d d') (hd : d.resolve path = .ok place) :
    d'.resolve path = .ok place := by
  unfold resolve at hd ⊢
  split_ifs at hd ⊢
  · exact follow_of_keeps h hd
  · exact follow_of_keeps h hd

theorem ne_empty_of_resolve (h : d.resolve path = .ok place) : path ≠ "" := by
  rintro rfl
  cases h

def NamesFile (path : String) : Prop :=
  path.toList.contains (Char.ofNat 0) = false ∧ Path.asksDirectory path = false

theorem checked_eq_ok_iff {α : Type} {r : Except OsError α} {a : α} :
    checked path r = .ok a ↔ path.toList.contains (Char.ofNat 0) = false ∧ r = .ok a := by
  unfold checked
  cases hzero : path.toList.contains (Char.ofNat 0) with
  | true =>
    rw [if_pos rfl]
    simp only [reduceCtorEq, Bool.true_eq_false, false_and]
  | false =>
    rw [if_neg nofun]
    cases r <;> simp only [Except.mapError, reduceCtorEq, Except.ok.injEq, true_and]

theorem openFile_eq_ok_iff : d.openFile path = .ok (place, bs) ↔
    NamesFile path ∧ d.resolve path = .ok place ∧ d.node? place = some (.file bs) := by
  unfold openFile NamesFile find
  rw [checked_eq_ok_iff, and_assoc]
  apply and_congr_right
  intro _
  cases hresolve : d.resolve path with
  | error e => simp [bind, Except.bind]
  | ok q =>
    simp only [bind, Except.bind, Except.ok.injEq]
    cases hnode : d.node? q with
    | none =>
      simp only [throw, throwThe, MonadExceptOf.throw, reduceCtorEq, false_iff, not_and]
      rintro - rfl
      rw [hnode]
      nofun
    | some n =>
      cases n with
      | directory =>
        simp only [pure, Except.pure, throw, throwThe, MonadExceptOf.throw, reduceCtorEq, false_iff,
          not_and]
        rintro - rfl
        rw [hnode]
        nofun
      | file bs' =>
        cases hslash : Path.asksDirectory path with
        | true => simp [throw, throwThe, MonadExceptOf.throw]
        | false =>
          simp only [Bool.false_eq_true, if_false, pure, Except.pure, Except.ok.injEq,
            Prod.mk.injEq, true_and]
          constructor
          · rintro ⟨rfl, rfl⟩
            exact ⟨rfl, hnode⟩
          · rintro ⟨rfl, hfile⟩
            rw [hnode] at hfile
            cases hfile
            exact ⟨rfl, rfl⟩

theorem createFile_eq_ok_iff : d.createFile path = .ok (place, d') ↔
    NamesFile path ∧ d.resolve path = .ok place ∧ d.node? place ≠ some .directory ∧
      d' = d.put place (.file []) := by
  unfold createFile NamesFile
  rw [checked_eq_ok_iff, and_assoc]
  apply and_congr_right
  intro _
  cases hresolve : d.resolve path with
  | error e => simp [bind, Except.bind]
  | ok q =>
    simp only [bind, Except.bind, Except.ok.injEq]
    by_cases hbad : Path.asksDirectory path = true ∨ d.node? q = some .directory
    · rw [if_pos hbad]
      simp only [throw, throwThe, MonadExceptOf.throw, reduceCtorEq, false_iff, not_and]
      rintro hslash rfl hnode
      rw [hslash] at hbad
      exact absurd (hbad.resolve_left nofun) hnode
    · rw [if_neg hbad]
      rw [not_or, Bool.not_eq_true] at hbad
      simp only [pure, Except.pure, Except.ok.injEq, Prod.mk.injEq, hbad.1, true_and]
      constructor
      · rintro ⟨rfl, rfl⟩
        exact ⟨rfl, hbad.2, rfl⟩
      · rintro ⟨rfl, -, rfl⟩
        exact ⟨rfl, rfl⟩

/-- What a path that is resolved leads to decides whether it leads to a directory. -/
theorem isDirectory_of_resolve (h : d.resolve path = .ok place) :
    d.isDirectory path = true ↔ d.node? place = some .directory := by
  unfold isDirectory find
  rw [h]
  simp only [bind, Except.bind]
  cases hnode : d.node? place with
  | none => simp [throw, throwThe, MonadExceptOf.throw]
  | some n =>
    cases n with
    | directory => simp [pure, Except.pure]
    | file bs =>
      cases Path.asksDirectory path <;> simp [pure, Except.pure, throw, throwThe, MonadExceptOf.throw]

end WorkingDirectory

end SectionArchive
