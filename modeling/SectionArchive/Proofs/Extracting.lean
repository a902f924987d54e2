import Mathlib
import SectionArchive.Proofs.Commands
import SectionArchive.Proofs.PathsBelow
import SectionArchive.Proofs.Operations
/-!
Verifying and extracting. Agrees a file that holds a container with intact sections, verifying finds
all of them intact and writes nothing, and extracting writes each listed payload to the file that is
named after its section, and nothing else.
-/

namespace SectionArchive

namespace FileContainer

variable {d d' : WorkingDirectory} {f : FileContainer} {contents : List Bytes} {i : Nat}
  {raw : Bytes}

/-- The file holds what the container's storage is thought to hold, and can be read. -/
structure Legible (d : WorkingDirectory) (f : FileContainer) : Prop where
  agrees : f.Agrees d
  readable : f.container.storage.Readable

/-- The cursor does not matter. -/
theorem Legible.moved (h : f.Legible d) {s : Storage} (hs : f.container.storage.Moved s) :
    Legible d { f with container := { f.container with storage := s } } := by
  obtain ⟨position, rfl⟩ := hs
  exact ⟨h.agrees, h.readable.seek, h.readable.read⟩

/-- Neither do other files. -/
theorem Legible.elsewhere (h : f.Legible d) (hsame : d'.node? f.place = d.node? f.place) :
    f.Legible d' := by
  refine ⟨?_, h.readable⟩
  unfold Agrees WorkingDirectory.content
  rw [hsame]
  exact h.agrees

/-- The file holds the container, and its sections are intact there and not in memory. -/
structure Holds (d : WorkingDirectory) (f : FileContainer) (contents : List Bytes) : Prop
    extends Legible d f where
  sections : List.Forall₂ (fun e raw => e.payload = none ∧ e.persisted = true ∧
      Section.Stored f.container.storage.content e.header raw)
    f.container.directory.entries contents

namespace Holds

theorem size (h : f.Holds d contents) : f.container.directory.size = contents.length :=
  h.sections.length_eq

theorem section_at (h : f.Holds d contents) (hi : contents[i]? = some raw) :
    ∃ e, f.container.directory.entries[i]? = some e ∧ e.payload = none ∧ e.persisted = true ∧
      Section.Stored f.container.storage.content e.header raw :=
  exists_getElem?_of_forall₂ h.sections hi

theorem moved (h : f.Holds d contents) {s : Storage} (hs : f.container.storage.Moved s) :
    Holds d { f with container := { f.container with storage := s } } contents := by
  have hlegible := h.toLegible.moved hs
  obtain ⟨position, rfl⟩ := hs
  exact ⟨hlegible, h.sections⟩

theorem elsewhere (h : f.Holds d contents) (hsame : d'.node? f.place = d.node? f.place) :
    f.Holds d' contents := ⟨h.toLegible.elsewhere hsame, h.sections⟩

/-- A section can be loaded and dropped again. -/
theorem load_unload (h : f.Holds d contents) (hi : contents[i]? = some raw) :
    ∃ g s, run (Container.load i) d f = (.ok (.ofLoaded raw), d, g) ∧
      run (Container.unload i) d g =
        (.ok (), d, { f with container := { f.container with storage := s } }) ∧
      f.container.storage.Moved s := by
  obtain ⟨⟨header, payload, threshold, flags, persisted⟩, he, hnone, hpersisted, hplace, hholds⟩ :=
    h.section_at hi
  obtain rfl : payload = none := hnone
  obtain rfl : persisted = true := hpersisted
  obtain ⟨hlt, hentry⟩ := List.getElem?_eq_some_iff.1 he
  have hreach : f.container.storage.Reaches header.pointer.toNat :=
    Storage.reaches_of_le (Nat.le_of_add_right_le hplace)
  obtain ⟨position, hread⟩ := Section.read_eq h.readable hreach i
  rw [hholds i] at hread
  have hload := Container.load_eq i f.container
  simp only [he, hread, ofExcept_ok] at hload
  have hloaded : (f.container.directory.set i
      ⟨header, some (.ofLoaded raw), threshold, flags, true⟩).entries[i]? =
        some ⟨header, some (.ofLoaded raw), threshold, flags, true⟩ :=
    List.getElem?_set_self hlt
  have hback : (f.container.directory.set i
      ⟨header, some (.ofLoaded raw), threshold, flags, true⟩).set i
        ⟨header, none, threshold, flags, true⟩ = f.container.directory := by
    unfold Directory.set
    rw [List.set_set, ← hentry, List.set_getElem_self]
  refine ⟨_, { f.container.storage with position }, run_of_ok h.agrees hload rfl, ?_, position,
    rfl⟩
  refine run_of_ok h.agrees ?_ rfl
  rw [Container.unload_eq, hloaded]
  simp only [if_true, hback]

/-- A section can be copied into a file. -/
theorem copyInto (h : f.Holds d contents) (hi : contents[i]? = some raw) (target : Place) :
    ∃ s, FileContainer.copyInto i target d f = (.ok raw.length, d.put target (.file raw),
        { f with container := { f.container with storage := s } }) ∧
      f.container.storage.Moved s := by
  obtain ⟨e, he, hnone, -, hstored⟩ := h.section_at hi
  obtain ⟨position, sink, hstream, hreceived⟩ :=
    Section.stream_eq h.readable hstored Sink.accepting_unlimited i
  have hbytes : sink.bytes = raw := hreceived.bytes_eq
  refine ⟨{ f.container.storage with position }, ?_, position, rfl⟩
  unfold FileContainer.copyInto
  rw [refresh_of_agrees h.agrees, Container.copy_eq, he]
  simp only [hnone, hstream, hbytes]

end Holds

end FileContainer

namespace CommandLine

open Command

variable {d d' : WorkingDirectory} {f : FileContainer} {contents : List Bytes} {dir : String}
  {D : Place} {bytes : Nat → Bytes}

/-! ### Verifying -/

/-- All listed sections are found intact. -/
theorem gives_verifyAll {indices : List Nat} (h : f.Holds d contents)
    (hall : ∀ i ∈ indices, i < contents.length) : Gives (verifyAll indices f) d 0 d := by
  induction indices generalizing f with
  | nil => exact gives_pure _ _
  | cons i rest ih =>
    have hi := List.getElem?_eq_getElem (hall i (List.mem_cons_self ..))
    obtain ⟨g, s, hload, hunload, hmoved⟩ := h.load_unload hi
    have hrest := ih (h.moved hmoved) fun j hj => hall j (List.mem_cons_of_mem _ hj)
    unfold verifyAll
    refine (gives_attempt hload).bind ?_
    refine ((gives_say _ d).bind (gives_pure 0 d)).bind ?_
    refine (gives_operate hunload).bind ?_
    exact hrest.bind (gives_pure _ _)

theorem gives_verifyContainer {path : String}
    (hopen : FileContainer.openPath d path defaultMaxSections = .ok f) (h : f.Holds d contents) :
    Gives (verifyContainer path) d () d := by
  have hall : ∀ i ∈ List.range f.container.directory.size, i < contents.length := by
    intro i hi
    rw [← h.size]
    exact List.mem_range.1 hi
  unfold verifyContainer
  refine (gives_ofFiles hopen).bind ?_
  exact (gives_verifyAll h hall).bind (gives_say _ d)

/-! ### Names of the extracted files -/

def sectionName (index : Nat) : String := s!"section_{index}.bin"

theorem toList_sectionName (index : Nat) :
    (sectionName index).toList = "section_".toList ++ Nat.toDigits 10 index ++ ".bin".toList := by
  have h : sectionName index = "section_" ++ index.repr ++ ".bin" := rfl
  rw [h, String.toList_append, String.toList_append, Nat.toList_repr]

theorem sectionName_inj {i j : Nat} (h : sectionName i = sectionName j) : i = j := by
  have hchars := congrArg String.toList h
  rw [toList_sectionName, toList_sectionName, List.append_left_inj, List.append_right_inj,
    ← Nat.toList_repr, ← Nat.toList_repr, String.toList_inj] at hchars
  exact Nat.repr_injective hchars

theorem not_mem_sectionName {c : Char} (hdigit : c.isDigit = false)
    (hother : c ∉ "section_".toList ++ ".bin".toList) (index : Nat) :
    c ∉ (sectionName index).toList := by
  rw [toList_sectionName, List.mem_append, List.mem_append]
  rw [List.mem_append] at hother
  rintro ((h | h) | h)
  · exact hother (.inl h)
  · rw [Nat.isDigit_of_mem_toDigits (by decide) (by decide) h] at hdigit
    cases hdigit
  · exact hother (.inr h)

theorem utf8Len_of_isDigit {cs : List Char} (h : ∀ c ∈ cs, c.isDigit = true) :
    String.utf8Len cs = cs.length := by
  induction cs with
  | nil => rfl
  | cons c rest ih =>
    have hc : c.utf8Size = 1 := by
      have hdigit := h c (List.mem_cons_self ..)
      unfold Char.isDigit at hdigit
      simp only [Bool.and_eq_true, decide_eq_true_eq] at hdigit
      rw [Char.utf8Size_eq_one_iff]
      exact UInt32.le_trans hdigit.2 (by decide)
    unfold String.utf8Len
    rw [hc, ih fun c' hc' => h c' (List.mem_cons_of_mem _ hc'), List.length_cons]

theorem utf8ByteSize_sectionName {index : Nat} (h : index < UInt32.size) :
    (sectionName index).utf8ByteSize ≤ 22 := by
  have hdigits : index.repr.utf8ByteSize ≤ 10 := by
    rw [Nat.repr_eq_ofList_toDigits, String.utf8ByteSize_ofList, utf8Len_of_isDigit,
      Nat.length_toDigits_le_iff (by decide) (by decide)]
    · exact Nat.lt_of_lt_of_le h (by decide)
    · intro c hc
      exact Nat.isDigit_of_mem_toDigits (by decide) (by decide) hc
  have hname : sectionName index = "section_" ++ index.repr ++ ".bin" := rfl
  have hfront : "section_".utf8ByteSize = 8 := rfl
  have hback : ".bin".utf8ByteSize = 4 := rfl
  rw [hname, String.utf8ByteSize_append, String.utf8ByteSize_append, hfront, hback]
  omega

theorem isName_sectionName {index : Nat} (h : index < UInt32.size) :
    Path.IsName (sectionName index) := by
  have hhead : (sectionName index).toList.head? = some 's' := by
    rw [toList_sectionName]
    rfl
  constructor
  · exact not_mem_sectionName (by decide) (by decide) index
  · exact not_mem_sectionName (by decide) (by decide) index
  · intro heq
    rw [heq] at hhead
    cases hhead
  · intro heq
    rw [heq] at hhead
    cases hhead
  · intro heq
    rw [heq] at hhead
    cases hhead
  · have hsize := utf8ByteSize_sectionName h
    unfold Path.maxName
    omega

/-! ### Extracting -/

def extracted (D : Place) (bytes : Nat → Bytes) : List Nat → WorkingDirectory → WorkingDirectory
  | [], d => d
  | i :: rest, d => extracted D bytes rest (d.written (D ++ [sectionName i]) (bytes i))

theorem isAnchor_append {name : String} (hname : Path.IsName name) (D : Place) :
    Place.isAnchor (D ++ [name]) = false := by
  have hroot : D ++ [name] ≠ Place.root := by
    intro heq
    have hlast := congrArg List.getLast? heq
    rw [List.getLast?_concat, Place.root, List.getLast?_singleton, Option.some.injEq] at hlast
    exact hname.slash (hlast ▸ List.mem_singleton.2 rfl)
  unfold Place.isAnchor
  simp [hroot, hname.dots]

/-- Other places stay as they are. -/
theorem node?_extracted_of_ne {indices : List Nat} (hall : ∀ i ∈ indices, i < UInt32.size)
    {p : Place} (hp : ∀ i ∈ indices, p ≠ D ++ [sectionName i]) (d : WorkingDirectory) :
    (extracted D bytes indices d).node? p = d.node? p := by
  induction indices generalizing d with
  | nil => rfl
  | cons i rest ih =>
    have hi := isName_sectionName (hall i (List.mem_cons_self ..))
    unfold extracted
    rw [ih (fun j hj => hall j (List.mem_cons_of_mem _ hj))
        (fun j hj => hp j (List.mem_cons_of_mem _ hj)),
      WorkingDirectory.node?_written (isAnchor_append hi D), if_neg (hp i (List.mem_cons_self ..))]

/-- The file of a listed section holds its bytes. -/
theorem node?_extracted {indices : List Nat} (hall : ∀ i ∈ indices, i < UInt32.size) {i : Nat}
    (hi : i ∈ indices) (d : WorkingDirectory) :
    (extracted D bytes indices d).node? (D ++ [sectionName i]) =
      some (.file (bytes i)) := by
  induction indices generalizing d with
  | nil => cases hi
  | cons j rest ih =>
    have hrest : ∀ k ∈ rest, k < UInt32.size := fun k hk => hall k (List.mem_cons_of_mem _ hk)
    unfold extracted
    by_cases hlater : i ∈ rest
    · exact ih hrest hlater _
    · obtain rfl : i = j := (List.mem_cons.1 hi).resolve_right hlater
      have hname := isName_sectionName (hall i (List.mem_cons_self ..))
      have hne : ∀ k ∈ rest, D ++ [sectionName i] ≠ D ++ [sectionName k] := by
        intro k hk heq
        rw [List.append_right_inj, List.singleton_inj] at heq
        rw [sectionName_inj heq] at hlater
        exact hlater hk
      rw [node?_extracted_of_ne hrest hne, WorkingDirectory.node?_written (isAnchor_append hname D),
        if_pos rfl]

/-- In a directory that holds nothing there are then the files of the listed sections, and nothing
else. -/
theorem node?_extracted_eq_some_iff {indices : List Nat} (hall : ∀ i ∈ indices, i < UInt32.size)
    (hempty : ∀ name rest, d.node? (D ++ name :: rest) = none) {name : String} {rest : Place}
    {node : Node} :
    (extracted D bytes indices d).node? (D ++ name :: rest) = some node ↔
      ∃ i ∈ indices, name = sectionName i ∧ rest = [] ∧ node = .file (bytes i) := by
  by_cases hname : ∃ i ∈ indices, D ++ name :: rest = D ++ [sectionName i]
  · obtain ⟨i, hi, heq⟩ := hname
    rw [heq, node?_extracted hall hi, Option.some.injEq]
    rw [List.append_right_inj, List.cons.injEq] at heq
    obtain ⟨rfl, rfl⟩ := heq
    constructor
    · rintro rfl
      exact ⟨i, hi, rfl, rfl, rfl⟩
    · rintro ⟨j, -, hsame, -, rfl⟩
      rw [sectionName_inj hsame]
  · have hne : ∀ i ∈ indices, D ++ name :: rest ≠ D ++ [sectionName i] :=
      fun i hi heq => hname ⟨i, hi, heq⟩
    rw [node?_extracted_of_ne hall hne, hempty]
    constructor
    · nofun
    · rintro ⟨i, hi, rfl, rfl, -⟩
      exact absurd rfl (hne i hi)

structure Leads (d : WorkingDirectory) (dir : String) (D : Place) : Prop where
  zero : dir.toList.contains (Char.ofNat 0) = false
  resolve : d.resolve dir = .ok D
  directory : d.node? D = some .directory

theorem leads_of_makeDirectories (hmake : d.makeDirectories dir = .ok d')
    (hresolve : d'.resolve dir = .ok D) : Leads d' dir D := by
  obtain ⟨hzero, -, hdir⟩ := WorkingDirectory.makeDirectories_ok hmake
  refine ⟨hzero, hresolve, ?_⟩
  rw [← WorkingDirectory.isDirectory_of_resolve hresolve]
  exact hdir (WorkingDirectory.ne_empty_of_resolve hresolve)

theorem Leads.keeps (h : Leads d dir D) (hkeeps : WorkingDirectory.KeepsDirectories d d') :
    Leads d' dir D :=
  ⟨h.zero, WorkingDirectory.resolve_of_keeps hkeeps h.resolve, hkeeps _ h.directory⟩

structure Target (d : WorkingDirectory) (dir : String) (D : Place) (indices : List Nat) : Prop
    extends Leads d dir D where
  small : ∀ i ∈ indices, i < UInt32.size
  short : ∀ i ∈ indices, (sectionPath dir i).utf8ByteSize ≤ Path.maxPath
  free : ∀ i ∈ indices, d.node? (D ++ [sectionName i]) ≠ some .directory

namespace Target

variable {indices : List Nat} {i : Nat}

theorem createFile (h : Target d dir D indices) (hi : i ∈ indices) :
    d.createFile (sectionPath dir i) =
      .ok (D ++ [sectionName i], d.put (D ++ [sectionName i]) (.file [])) := by
  have hname := isName_sectionName (h.small i hi)
  rw [WorkingDirectory.createFile_eq_ok_iff]
  refine ⟨WorkingDirectory.namesFile_join hname h.zero, ?_, h.free i hi, rfl⟩
  exact WorkingDirectory.resolve_join hname h.resolve h.directory (h.short i hi)

/-- Writing a section's file leaves the others to be written. -/
theorem written {rest : List Nat} (h : Target d dir D (i :: rest)) (bs : Bytes) :
    Target (d.written (D ++ [sectionName i]) bs) dir D rest := by
  have hfree := h.free i (List.mem_cons_self ..)
  refine ⟨h.toLeads.keeps (WorkingDirectory.keepsDirectories_written hfree bs),
    fun j hj => h.small j (List.mem_cons_of_mem _ hj),
    fun j hj => h.short j (List.mem_cons_of_mem _ hj), ?_⟩
  intro j hj
  rw [WorkingDirectory.node?_written (WorkingDirectory.isAnchor_of_node? hfree)]
  split
  · nofun
  · exact h.free j (List.mem_cons_of_mem _ hj)

end Target

/-- Extracting the listed sections writes their files. -/
theorem gives_extractAll {indices : List Nat} (h : f.Holds d contents)
    (hall : ∀ i ∈ indices, i < contents.length) (htarget : Target d dir D indices)
    (hplace : ∀ i ∈ indices, f.place ≠ D ++ [sectionName i]) :
    Gives (extractAll dir indices f) d () (extracted D (contents.getD · []) indices d) := by
  induction indices generalizing d f with
  | nil => exact gives_pure _ _
  | cons i rest ih =>
    obtain ⟨raw, hraw⟩ : ∃ raw, contents[i]? = some raw :=
      ⟨_, List.getElem?_eq_getElem (hall i (List.mem_cons_self ..))⟩
    have hcontent : contents.getD i [] = raw := by
      rw [List.getD_eq_getElem?_getD, hraw, Option.getD_some]
    have hne := hplace i (List.mem_cons_self ..)
    have hanchor := WorkingDirectory.isAnchor_of_node? (htarget.free i (List.mem_cons_self ..))
    have hmade : f.Holds (d.put (D ++ [sectionName i]) (.file [])) contents := by
      apply h.elsewhere
      rw [WorkingDirectory.node?_put hanchor, if_neg hne]
    have hwritten : f.Holds (d.written (D ++ [sectionName i]) raw) contents := by
      apply h.elsewhere
      rw [WorkingDirectory.node?_written hanchor, if_neg hne]
    obtain ⟨s, hcopy, hmoved⟩ := hmade.copyInto hraw (D ++ [sectionName i])
    have hrest := ih (hwritten.moved hmoved) (fun j hj => hall j (List.mem_cons_of_mem _ hj))
      (htarget.written raw) fun j hj => hplace j (List.mem_cons_of_mem _ hj)
    unfold extractAll extracted
    rw [hcontent]
    refine (gives_onFiles (htarget.createFile (List.mem_cons_self ..))).bind ?_
    refine (gives_operate hcopy).bind ?_
    exact (gives_say _ _).bind hrest

/-! ### Whole extractions -/

theorem gives_makeDirectories {path : String} (hmake : d.makeDirectories path = .ok d') :
    Gives (onFiles .system fun d => (d.makeDirectories path).map ((), ·)) d () d' := by
  apply gives_onFiles
  rw [hmake]
  rfl

section

variable {r : Extraction} {d'' : WorkingDirectory}
  (hopen : FileContainer.openPath d r.input defaultMaxSections = .ok f)
  (hmake : d.makeDirectories r.outputDir = .ok d')

include hopen hmake

/-- Once container and directory are there, the sections decide. -/
theorem gives_extraction
    (h : Gives (extractAll r.outputDir (r.targets f.container) f) d' () d'') :
    Gives r.perform d () d'' :=
  (gives_ofFiles hopen).bind ((gives_makeDirectories hmake).bind h)

end

end CommandLine

end SectionArchive
