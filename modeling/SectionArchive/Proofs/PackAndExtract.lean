import Mathlib
import SectionArchive.Proofs.Extracting
import SectionArchive.Proofs.Packing
/-!
Packing and extracting. What `pack` writes is found intact by `verify`, and `extract` gives back the
packed files under names that count them, whatever codec, checksum, threshold and types were asked
for. Neither `verify` nor `extract` changes what was there.
-/

namespace SectionArchive.CommandLine

variable {r : Packing} {d d' : WorkingDirectory} {output D : Place} {contents : List Bytes}
  {dir : String} {words : List String}

/-! ### The container in the output -/

theorem Packing.Packable.length_image_lt (h : r.Packable d output contents) :
    (r.image contents).bytes.length < UInt64.size := by
  have hsum : Container.piecesLength (contents.map r.piece) ≤
      (contents.map r.piece).length * UInt32.size := by
    have hle := List.sum_le_card_nsmul ((contents.map r.piece).map fun p => p.packed.length)
      UInt32.size (by
        intro n hn
        obtain ⟨p, hp, rfl⟩ := List.mem_map.1 hn
        obtain ⟨bs, hbs, rfl⟩ := List.mem_map.1 hp
        exact Nat.le_of_lt (h.sizes bs hbs).2)
    rwa [List.length_map, smul_eq_mul] at hle
  have hcount := h.count
  have hbig : UInt64.size = UInt32.size * UInt32.size := rfl
  have hword : UInt32.size = 4294967296 := rfl
  unfold image
  rw [Container.length_bytes_imageOf]
  rw [List.length_map] at hsum ⊢
  rw [hbig]
  rw [hword] at hsum ⊢
  omega

/-- The output opens to a container that holds the inputs. -/
theorem Packing.Packable.opens (h : r.Packable d output contents)
    (hopen : d'.openFile r.output = .ok (output, (r.image contents).bytes)) :
    ∃ f, FileContainer.openPath d' r.output defaultMaxSections = .ok f ∧ f.place = output ∧
      f.Holds d' contents := by
  have hfits : ∀ p ∈ contents.map r.piece, p.Fits := by
    intro p hp
    obtain ⟨bs, hbs, rfl⟩ := List.mem_map.1 hp
    obtain ⟨hraw, hpacked⟩ := h.sizes bs hbs
    exact ⟨Flags.valid_effective (Flags.valid_select _ _) _ _, hraw, hpacked⟩
  have hcount : (contents.map r.piece).length ≤ defaultMaxSections.toNat := by
    rw [List.length_map]
    exact h.count
  have hverdict := Container.verdict_imageOf h.known hfits h.length_image_lt hcount
  have hplaces := Container.places_imageOf hfits h.length_image_lt
  obtain ⟨-, -, hnode⟩ := WorkingDirectory.openFile_eq_ok_iff.1 hopen
  refine ⟨_, FileContainer.openPath_of_verdict hopen hverdict, rfl, ?_⟩
  refine ⟨⟨WorkingDirectory.content_of_node? hnode, ⟨rfl, rfl⟩⟩, ?_⟩
  unfold Opening.opened
  rw [List.forall₂_map_left_iff]
  rw [List.forall₂_map_right_iff] at hplaces
  refine hplaces.imp ?_
  intro t bs hplace
  exact ⟨rfl, rfl, hplace.stored⟩

/-! ### Extracting -/

/-- The path leads to a directory `D` that can be made or is there, and then is empty, and the paths
of so many files in it are not too long. -/
structure Fresh (d : WorkingDirectory) (dir : String) (d' : WorkingDirectory) (D : Place)
    (count : Nat) : Prop where
  made : d.makeDirectories dir = .ok d'
  resolve : d'.resolve dir = .ok D
  empty : ∀ name rest, d'.node? (D ++ name :: rest) = none
  short : ∀ i < count, (sectionPath dir i).utf8ByteSize ≤ Path.maxPath

/-- A directory that is missing can be made where there are the directories above it. -/
theorem fresh_of_missing {count : Nat} (hzero : dir.toList.contains (Char.ofNat 0) = false)
    (hresolve : d.resolve dir = .ok D) (hmissing : d.node? D = none)
    (hempty : ∀ name rest, d.node? (D ++ name :: rest) = none)
    (hshort : ∀ i < count, (sectionPath dir i).utf8ByteSize ≤ Path.maxPath) :
    Fresh d dir (d.put D .directory) D count := by
  have hfree : d.node? D ≠ some .directory := by
    rw [hmissing]
    nofun
  refine ⟨?_, ?_, ?_, hshort⟩
  · have hdir : ¬ dir.isEmpty = true := by
      rw [String.isEmpty_iff]
      exact WorkingDirectory.ne_empty_of_resolve hresolve
    unfold WorkingDirectory.makeDirectories WorkingDirectory.ensureDirectory
      WorkingDirectory.makeDirectory
    rw [WorkingDirectory.checked_eq_ok_iff, if_neg hdir, hresolve]
    simp only [bind, Except.bind, hmissing, pure, Except.pure, and_true]
    exact hzero
  · exact WorkingDirectory.resolve_of_keeps (WorkingDirectory.keepsDirectories_put hfree _) hresolve
  · intro name rest
    rw [WorkingDirectory.node?_put (WorkingDirectory.isAnchor_of_node? hfree), if_neg (by simp)]
    exact hempty name rest

/-- The directory `D` holds exactly the files of the listed sections, what was there before is as it
was, and no file came to be anywhere else. -/
structure Extracted (d d' : WorkingDirectory) (D : Place) (contents : List Bytes)
    (indices : List Nat) : Prop where
  there : ∀ name rest node, d'.node? (D ++ name :: rest) = some node ↔
    ∃ i ∈ indices, ∃ bs, contents[i]? = some bs ∧ name = sectionName i ∧ rest = [] ∧
      node = .file bs
  kept : ∀ p, d.node? p ≠ none → d'.node? p = d.node? p
  elsewhere : ∀ p bs, (∀ name rest, p ≠ D ++ name :: rest) → d'.node? p = some (.file bs) →
    d.node? p = some (.file bs)

def wanted (contents : List Bytes) : Option UInt32 → List Nat
  | none => List.range contents.length
  | some index => [index.toNat]

theorem lt_of_mem_wanted {index : Option UInt32} (hindex : ∀ i, index = some i →
    i.toNat < contents.length) {i : Nat} (hi : i ∈ wanted contents index) : i < contents.length := by
  unfold wanted at hi
  cases index with
  | none => exact List.mem_range.1 hi
  | some j =>
    obtain rfl := List.mem_singleton.1 hi
    exact hindex j rfl

theorem Fresh.target {indices : List Nat} (h : Fresh d dir d' D contents.length)
    (hcount : contents.length ≤ 65535) (hall : ∀ i ∈ indices, i < contents.length) :
    Target d' dir D indices := by
  have hword : UInt32.size = 4294967296 := rfl
  refine ⟨leads_of_makeDirectories h.made h.resolve, ?_, fun i hi => h.short i (hall i hi), ?_⟩
  · intro i hi
    have hlt := hall i hi
    omega
  · intro i _
    rw [h.empty]
    nofun

theorem Fresh.extracted {indices : List Nat} (h : Fresh d dir d' D contents.length)
    (hcount : contents.length ≤ 65535) (hall : ∀ i ∈ indices, i < contents.length) :
    Extracted d (extracted D (contents.getD · []) indices d') D contents indices := by
  obtain ⟨-, hadds, -⟩ := WorkingDirectory.makeDirectories_ok h.made
  have hsmall := (h.target hcount hall).small
  have hcontent : ∀ i ∈ indices, contents[i]? = some (contents.getD i []) := by
    intro i hi
    rw [List.getD_eq_getElem?_getD, List.getElem?_eq_getElem (hall i hi), Option.getD_some]
  -- Below the directory there is nothing but the files, and those were nowhere before.
  have hbelow : ∀ p, (∀ i ∈ indices, p ≠ D ++ [sectionName i]) →
      (CommandLine.extracted D (contents.getD · []) indices d').node? p = d'.node? p :=
    fun p hp => node?_extracted_of_ne hsmall hp d'
  refine ⟨?_, ?_, ?_⟩
  · intro name rest node
    rw [node?_extracted_eq_some_iff hsmall h.empty]
    constructor
    · rintro ⟨i, hi, hname, hrest, hnode⟩
      exact ⟨i, hi, _, hcontent i hi, hname, hrest, hnode⟩
    · rintro ⟨i, hi, bs, hbs, hname, hrest, hnode⟩
      rw [hcontent i hi, Option.some.injEq] at hbs
      exact ⟨i, hi, hname, hrest, by rw [hnode, hbs]⟩
  · intro p hp
    have hsame := hadds.same hp
    rw [hbelow, hsame]
    rintro i - rfl
    rw [← hsame, h.empty] at hp
    exact hp rfl
  · intro p bs hp hfile
    rw [hbelow p fun i _ => hp _ _] at hfile
    rcases hadds p with hsame | ⟨-, hdir⟩
    · rw [← hsame]
      exact hfile
    · rw [hdir] at hfile
      cases hfile

/-- Extracting from a file that holds the contents. -/
theorem Fresh.gives_perform {f : FileContainer} {input : String} {bs : Bytes}
    {index : Option UInt32} (h : Fresh d dir d' D contents.length)
    (hcount : contents.length ≤ 65535) (hall : ∀ i ∈ wanted contents index, i < contents.length)
    (hopens : FileContainer.openPath d input defaultMaxSections = .ok f) (hholds : f.Holds d contents)
    (hplace : d.node? f.place = some (.file bs)) :
    Gives (Extraction.perform { input, outputDir := dir, index }) d ()
      (CommandLine.extracted D (contents.getD · []) (wanted contents index) d') := by
  obtain ⟨-, hadds, -⟩ := WorkingDirectory.makeDirectories_ok h.made
  have hsame : d'.node? f.place = d.node? f.place := hadds.same (by rw [hplace]; nofun)
  have hne : ∀ i ∈ wanted contents index, f.place ≠ D ++ [sectionName i] := by
    intro i _ heq
    rw [heq, h.empty, ← heq, hplace] at hsame
    cases hsame
  have htargets : Extraction.targets { input, outputDir := dir, index } f.container =
      wanted contents index := by
    unfold Extraction.targets wanted
    cases index with
    | some i => rfl
    | none => rw [hholds.size]
  apply gives_extraction hopens h.made
  rw [htargets]
  exact gives_extractAll (hholds.elsewhere hsame) hall (h.target hcount hall) hne

/-! ### Both -/

/-- Packing files succeeds and changes the output alone. Verifying the output then succeeds and changes
nothing; extracting it into a fresh directory succeeds and leaves there, under names that count the
sections, exactly the packed files, or the one that was asked for. -/
theorem pack_then_extract (hwords : Request.ofWords words = .ok (.pack r))
    (h : r.Packable d output contents) :
    let packed := run words d
    packed.exitCode = 0 ∧ (∀ p, p ≠ output → packed.files.node? p = d.node? p) ∧
      (∀ words', Request.ofWords words' = .ok (.verify r.output) →
        (run words' packed.files).exitCode = 0 ∧
          (run words' packed.files).files = packed.files) ∧
      ∀ words' dir index d' D, Fresh packed.files dir d' D contents.length →
        (∀ i, index = some i → i.toNat < contents.length) →
        Request.ofWords words' = .ok (.extract { input := r.output, outputDir := dir, index }) →
          (run words' packed.files).exitCode = 0 ∧
            Extracted packed.files (run words' packed.files).files D contents
              (wanted contents index) := by
  intro packed
  obtain ⟨hexit, hfiles⟩ := run_of_gives hwords h.gives_perform
  obtain ⟨f, hopens, hplace, hholds⟩ := h.opens h.openFile_packed
  have hpacked : packed.files = r.packed d output contents := hfiles
  rw [hpacked]
  refine ⟨hexit, ?_, ?_, ?_⟩
  · intro p hp
    rw [h.node?_packed, if_neg hp]
  · intro words' hwords'
    exact run_of_gives hwords' (gives_verifyContainer hopens hholds)
  · intro words' dir index d' D hfresh hindex hwords'
    have hall : ∀ i ∈ wanted contents index, i < contents.length :=
      fun i hi => lt_of_mem_wanted hindex hi
    have hnode : (r.packed d output contents).node? f.place =
        some (.file (r.image contents).bytes) := by
      rw [hplace, h.node?_packed, if_pos rfl]
    obtain ⟨hexit', hfiles'⟩ := run_of_gives hwords'
      (hfresh.gives_perform h.count hall hopens hholds hnode)
    rw [hfiles']
    exact ⟨hexit', hfresh.extracted h.count hall⟩

/-- For one, two files that are stored as they are, under the weak checksum. -/
theorem pack_then_extract_two_files :
    let d : WorkingDirectory := { nodes := [(["x"], .file [1, 2]), (["y"], .file [])] }
    let packed := run ["pack", "-o", "a.bpx", "-c", "none", "-k", "weak", "-i", "x", "y"] d
    packed.exitCode = 0 ∧
      (run ["verify", "a.bpx"] packed.files).exitCode = 0 ∧
      (run ["extract", "a.bpx", "-C", "out"] packed.files).exitCode = 0 ∧
      Extracted packed.files (run ["extract", "a.bpx", "-C", "out"] packed.files).files ["out"]
        [[1, 2], []] [0, 1] := by
  intro d packed
  have hcreate : d.createFile "a.bpx" = .ok (["a.bpx"], d.put ["a.bpx"] (.file [])) := rfl
  have hx : d.openFile "x" = .ok (["x"], [1, 2]) := rfl
  have hy : d.openFile "y" = .ok (["y"], []) := rfl
  have hpackable : Packing.Packable
      { output := "a.bpx", inputs := ["x", "y"], codec := "none", checksum := "weak" } d ["a.bpx"]
        [[1, 2], []] := by
    refine ⟨.inr rfl, by decide, ⟨_, hcreate⟩, ?_, ?_⟩
    · exact .cons ⟨["x"], hx, by decide⟩ (.cons ⟨["y"], hy, by decide⟩ .nil)
    · decide
  have hwords : Request.ofWords ["pack", "-o", "a.bpx", "-c", "none", "-k", "weak", "-i", "x", "y"] =
      .ok (.pack { output := "a.bpx", inputs := ["x", "y"], codec := "none", checksum := "weak" }) :=
    rfl
  obtain ⟨hexit, hsame, hverify, hextract⟩ := pack_then_extract hwords hpackable
  have hmissing : ∀ rest, packed.files.node? ("out" :: rest) = none := by
    intro rest
    rw [hsame _ (by simp)]
    simp [d, WorkingDirectory.node?, Place.isAnchor, Place.root, List.lookup]
  have hfresh : Fresh packed.files "out" (packed.files.put ["out"] .directory) ["out"] 2 := by
    refine fresh_of_missing rfl rfl (hmissing []) ?_ (by decide)
    intro name rest
    exact hmissing (name :: rest)
  have hverified := hverify ["verify", "a.bpx"] rfl
  have hall : ∀ i : UInt32, none = some i → i.toNat < 2 := by
    intro i hi
    cases hi
  obtain ⟨hexit', hextracted⟩ :=
    hextract ["extract", "a.bpx", "-C", "out"] "out" none _ ["out"] hfresh hall rfl
  exact ⟨hexit, hverified.1, hexit', hextracted⟩

end SectionArchive.CommandLine
