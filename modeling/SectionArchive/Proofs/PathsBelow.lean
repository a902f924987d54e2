import Mathlib
import SectionArchive.Proofs.WorkingDirectories
/-!
Paths below a directory. Joining a name to a path that leads to a directory gives a path to that name
in it, whatever dots and slashes the path has. Making directories adds directories where nothing was
and changes nothing else.
-/

namespace SectionArchive

namespace Path

theorem cut_of_not_mem {cs : List Char} (h : '/' ∉ cs) : cut cs = [cs] := by
  induction cs with
  | nil => rfl
  | cons c rest ih =>
    rw [List.mem_cons, not_or] at h
    unfold cut
    rw [if_neg (Ne.symm h.1), ih h.2]

theorem exists_of_asksDirectory {dir : String} (h : asksDirectory dir = true) :
    ∃ front, dir.toList = front ++ ['/'] := by
  unfold asksDirectory at h
  have hlast := of_decide_eq_true h
  exact ⟨_, (List.dropLast_append_getLast? _ hlast).symm⟩

theorem exists_join (dir name : String) : ∃ middle, join dir name = dir ++ middle ++ name ∧
    (middle = "" ∨ middle = "/") := by
  unfold join
  split
  · exact ⟨"", by rw [String.append_empty], .inl rfl⟩
  · exact ⟨"/", rfl, .inr rfl⟩

/-- Up to an empty part at its end, a path that is joined with a name has the parts of both. -/
theorem parts_join {dir name : String} (hdir : dir ≠ "") (hname : '/' ∉ name.toList) :
    ∃ ps, parts (join dir name) = ps ++ [name] ∧ (parts dir = ps ∨ parts dir = ps ++ [""]) := by
  have hempty : ¬ dir.isEmpty = true := by
    rw [String.isEmpty_iff]
    exact hdir
  have hcut : (cut name.toList).map String.ofList = [name] := by
    rw [cut_of_not_mem hname, List.map_singleton, String.ofList_toList]
  unfold join parts
  cases hslash : asksDirectory dir with
  | true =>
    obtain ⟨front, hfront⟩ := exists_of_asksDirectory hslash
    refine ⟨(cut front).map String.ofList, ?_, .inr ?_⟩
    · rw [if_pos (.inr rfl), String.toList_append, hfront, List.append_assoc, List.singleton_append,
        cut_append, List.map_append, hcut]
    · rw [hfront, cut_append, List.map_append]
      rfl
  | false =>
    refine ⟨(cut dir.toList).map String.ofList, ?_, .inl rfl⟩
    have hmiddle : dir.toList ++ "/".toList ++ name.toList = dir.toList ++ '/' :: name.toList := by
      rw [List.append_assoc]
      rfl
    rw [if_neg (by simp [hempty]), String.toList_append, String.toList_append, hmiddle, cut_append,
      List.map_append, hcut]

theorem isAbsolute_join {dir : String} (hdir : dir ≠ "") (name : String) :
    isAbsolute (join dir name) = isAbsolute dir := by
  obtain ⟨middle, hjoin, -⟩ := exists_join dir name
  have hchars : dir.toList ≠ [] := by
    intro hnil
    exact hdir (String.toList_inj.1 hnil)
  obtain ⟨c, rest, hcs⟩ := List.exists_cons_of_ne_nil hchars
  unfold isAbsolute
  rw [hjoin, String.toList_append, String.toList_append, hcs]
  rfl

structure IsName (name : String) : Prop where
  slash : '/' ∉ name.toList
  zero : Char.ofNat 0 ∉ name.toList
  nonempty : name ≠ ""
  dot : name ≠ "."
  dots : name ≠ ".."
  short : name.utf8ByteSize ≤ maxName

end Path

namespace WorkingDirectory

variable {d d' d'' : WorkingDirectory} {dir name path : String} {D p : Place}

theorem follow_cons (d : WorkingDirectory) (part : String) (rest : List String) (here : Place) :
    d.follow (part :: rest) here =
      match d.node? here with
      | none => .error .notFound
      | some (.file _) => .error .notADirectory
      | some .directory =>
        if part = "" ∨ part = "." then d.follow rest here
        else if part = ".." then d.follow rest here.above
        else if Path.maxName < part.utf8ByteSize then .error .nameTooLong
        else d.follow rest (here ++ [part]) := rfl

theorem follow_append (d : WorkingDirectory) (a b : List String) (here : Place) :
    d.follow (a ++ b) here = d.follow a here >>= fun place => d.follow b place := by
  induction a generalizing here with
  | nil => rfl
  | cons part rest ih =>
    rw [List.cons_append, follow_cons, follow_cons]
    cases d.node? here with
    | none => rfl
    | some n =>
      cases n with
      | file bs => rfl
      | directory =>
        simp only
        split_ifs
        · exact ih _
        · exact ih _
        · rfl
        · exact ih _

theorem follow_of_empty {parts : List String} (hparts : ∀ part ∈ parts, part = "")
    (hD : d.node? D = some .directory) : d.follow parts D = .ok D := by
  induction parts with
  | nil => rfl
  | cons part rest ih =>
    unfold follow
    rw [hD]
    simp only
    rw [if_pos (.inl (hparts part (List.mem_cons_self ..)))]
    exact ih fun q hq => hparts q (List.mem_cons_of_mem _ hq)

theorem follow_name (hname : Path.IsName name) (hD : d.node? D = some .directory) :
    d.follow [name] D = .ok (D ++ [name]) := by
  unfold follow
  rw [hD]
  simp only
  rw [if_neg (not_or.2 ⟨hname.nonempty, hname.dot⟩), if_neg hname.dots,
    if_neg (Nat.not_lt.2 hname.short)]
  rfl

/-- A name behind a path to a directory leads into the directory. -/
theorem resolve_join (hname : Path.IsName name) (hdir : d.resolve dir = .ok D)
    (hD : d.node? D = some .directory) (hshort : (Path.join dir name).utf8ByteSize ≤ Path.maxPath) :
    d.resolve (Path.join dir name) = .ok (D ++ [name]) := by
  have hdir' := ne_empty_of_resolve hdir
  obtain ⟨ps, hjoin, hparts⟩ := Path.parts_join hdir' hname.slash
  -- Both paths have the same parts up to empty ones behind them, and those stay in the directory.
  have hsame : (Path.parts dir).rdropWhile (· = "") = ps.rdropWhile (· = "") := by
    rcases hparts with hps | hps
    · rw [hps]
    · rw [hps, List.rdropWhile_concat_pos _ _ _ (by simp)]
  have hlast : (ps ++ [name]).rdropWhile (· = "") = ps ++ [name] :=
    List.rdropWhile_concat_neg _ _ _ (by simp [hname.nonempty])
  have hne : ¬ (Path.join dir name).isEmpty = true := by
    obtain ⟨middle, hmiddle, -⟩ := Path.exists_join dir name
    rw [String.isEmpty_iff, hmiddle]
    intro hnil
    exact hname.nonempty (String.append_eq_empty_iff.1 hnil).2
  unfold resolve at hdir ⊢
  rw [← List.rdropWhile, hsame] at hdir
  rw [if_neg hne, if_neg (Nat.not_lt.2 hshort), ← List.rdropWhile, hjoin, hlast,
    Path.isAbsolute_join hdir', follow_append]
  split at hdir
  · cases hdir
  · split at hdir
    · cases hdir
    · have hrest : d.follow (ps.rtakeWhile (· = "")) D = .ok D :=
        follow_of_empty (fun part hpart => by simpa using List.mem_rtakeWhile_imp hpart) hD
      rw [← List.rdropWhile_append_rtakeWhile (p := (· = "")) (l := ps), follow_append, hdir]
      simp only [bind, Except.bind, hrest, follow_name hname hD]

/-- A name behind a path may be that of a file. -/
theorem namesFile_join (hname : Path.IsName name)
    (hdir : dir.toList.contains (Char.ofNat 0) = false) : NamesFile (Path.join dir name) := by
  obtain ⟨middle, hjoin, hmiddle⟩ := Path.exists_join dir name
  have hchars : name.toList ≠ [] := fun hnil => hname.nonempty (String.toList_inj.1 hnil)
  rw [hjoin]
  constructor
  · rw [String.toList_append, String.toList_append, List.contains_eq_mem, decide_eq_false_iff_not,
      List.mem_append, List.mem_append]
    rw [List.contains_eq_mem, decide_eq_false_iff_not] at hdir
    rintro ((h | h) | h)
    · exact hdir h
    · rcases hmiddle with rfl | rfl
      · cases h
      · exact absurd h (by decide)
    · exact hname.zero h
  · unfold Path.asksDirectory
    rw [String.toList_append, decide_eq_false_iff_not, List.getLast?_append_of_ne_nil _ hchars]
    intro hlast
    exact hname.slash (List.mem_of_getLast? hlast)

/-! ### Making directories -/

def OnlyAddsDirectories (d d' : WorkingDirectory) : Prop :=
  ∀ p, d'.node? p = d.node? p ∨ d.node? p = none ∧ d'.node? p = some .directory

namespace OnlyAddsDirectories

theorem refl (d : WorkingDirectory) : OnlyAddsDirectories d d := fun _ => .inl rfl

theorem trans (h : OnlyAddsDirectories d d') (h' : OnlyAddsDirectories d' d'') :
    OnlyAddsDirectories d d'' := by
  intro p
  rcases h' p with hsame' | ⟨hnone, hdir⟩
  · rw [hsame']
    exact h p
  · rcases h p with hsame | ⟨-, hdir'⟩
    · exact .inr ⟨by rw [← hsame, hnone], hdir⟩
    · rw [hnone] at hdir'
      cases hdir'

/-- What was there is as it was. -/
theorem same (h : OnlyAddsDirectories d d') (hp : d.node? p ≠ none) : d'.node? p = d.node? p := by
  rcases h p with hsame | ⟨hnone, -⟩
  · exact hsame
  · exact absurd hnone hp

end OnlyAddsDirectories

theorem makeDirectory_ok (h : d.makeDirectory path = .ok d') :
    OnlyAddsDirectories d d' ∧ d'.isDirectory path = true := by
  unfold makeDirectory at h
  cases hresolve : d.resolve path with
  | error e =>
    rw [hresolve] at h
    cases h
  | ok place =>
    simp only [hresolve, bind, Except.bind] at h
    cases hnode : d.node? place with
    | some n =>
      simp only [hnode] at h
      cases h
    | none =>
      simp only [hnode] at h
      cases h
      have hfree : d.node? place ≠ some .directory := by
        rw [hnode]
        nofun
      have hput : ∀ p, (d.put place .directory).node? p =
          if p = place then some .directory else d.node? p := node?_put (isAnchor_of_node? hfree)
      constructor
      · intro p
        rw [hput]
        by_cases hp : p = place
        · subst hp
          exact .inr ⟨hnode, if_pos rfl⟩
        · exact .inl (if_neg hp)
      · rw [isDirectory_of_resolve (resolve_of_keeps (keepsDirectories_put hfree _) hresolve), hput,
          if_pos rfl]

theorem ensureDirectory_ok (h : d.ensureDirectory path = .ok d') :
    OnlyAddsDirectories d d' ∧ d'.isDirectory path = true := by
  unfold ensureDirectory at h
  split at h
  · next hmake =>
    cases h
    exact makeDirectory_ok hmake
  · split at h
    · next hdir =>
      cases h
      exact ⟨.refl d, hdir⟩
    · cases h

theorem makeAbove_ok {isAbsolute : Bool} {reversed : List String}
    (h : d.makeAbove isAbsolute reversed = .ok d') : OnlyAddsDirectories d d' := by
  induction reversed generalizing d' with
  | nil =>
    cases h
    exact .refl d
  | cons last rest ih =>
    unfold makeAbove at h
    simp only at h
    split at h
    · next hfirst =>
      cases h
      exact (ensureDirectory_ok hfirst).1
    · split at h
      · next habove => exact (ih habove).trans (ensureDirectory_ok h).1
      · cases h
    · cases h

theorem makeDirectories_ok (h : d.makeDirectories path = .ok d') :
    path.toList.contains (Char.ofNat 0) = false ∧ OnlyAddsDirectories d d' ∧
      (path ≠ "" → d'.isDirectory path = true) := by
  unfold makeDirectories at h
  obtain ⟨hzero, hmake⟩ := checked_eq_ok_iff.1 h
  refine ⟨hzero, ?_⟩
  split at hmake
  · next hempty =>
    cases hmake
    refine ⟨.refl d, ?_⟩
    intro hne
    exact absurd (String.isEmpty_iff.1 hempty) hne
  · split at hmake
    · next hfirst =>
      cases hmake
      obtain ⟨hadds, hdir⟩ := ensureDirectory_ok hfirst
      exact ⟨hadds, fun _ => hdir⟩
    · split at hmake
      · next habove =>
        obtain ⟨hadds, hdir⟩ := ensureDirectory_ok hmake
        exact ⟨(makeAbove_ok habove).trans hadds, fun _ => hdir⟩
      · cases hmake
    · cases hmake

end WorkingDirectory

end SectionArchive
