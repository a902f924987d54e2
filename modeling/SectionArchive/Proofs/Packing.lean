import Mathlib
import SectionArchive.Proofs.Commands
import SectionArchive.Proofs.Saving
/-!
Packing files. Each input becomes a section that was never saved, in the order in which they are
named; closing the container then saves them all, and the output holds the image of their pieces.
Names of codecs and checksums that are not known stand for zlib and CRC-32.
-/

namespace SectionArchive

open Section (Piece)

namespace CommandLine

/-! ### What is asked for -/

def chosenChecksum (name : String) : Checksum.Kind := (Checksum.Kind.ofName? name).getD .crc32

def chosenPacking (name : String) : Option Method :=
  if LetterCase.matchesAscii name "none" then none else some ((Method.ofName? name).getD .zlib)

theorem gives_checksumNamed (name : String) (d : WorkingDirectory) :
    Gives (checksumNamed name) d (chosenChecksum name) d := by
  unfold checksumNamed chosenChecksum
  cases Checksum.Kind.ofName? name with
  | some kind => exact gives_pure _ _
  | none => exact (gives_warn _ d).bind (gives_pure _ _)

theorem gives_packingNamed (name : String) (d : WorkingDirectory) :
    Gives (packingNamed name) d (chosenPacking name) d := by
  unfold packingNamed chosenPacking
  split
  · exact gives_pure _ _
  · cases Method.ofName? name with
    | some m => exact gives_pure _ _
    | none => exact (gives_warn _ d).bind (gives_pure _ _)

namespace Packing

variable {r : Packing} {d : WorkingDirectory} {output : Place} {contents : List Bytes}

def options (r : Packing) : SectionOptions where
  ty := r.sectionType
  packing := chosenPacking r.codec
  checksum := chosenChecksum r.checksum
  threshold := r.threshold

def piece (r : Packing) (bs : Bytes) : Piece := Section.piece bs r.options.header r.threshold

def image (r : Packing) (contents : List Bytes) : Container.Image :=
  Container.imageOf r.containerType r.version (.ofBytes 16 []) (contents.map r.piece)

/-! ### Adding sections -/

def entry (r : Packing) (bs : Bytes) : Entry :=
  { Entry.fresh r.options.header r.threshold with payload := some { bytes := bs, dirty := true } }

/-- The container with a section for each file, not yet saved. -/
def container (r : Packing) (contents : List Bytes) : Container where
  storage := { refuses := FileContainer.readWrite }
  header := .fresh r.containerType r.version (.ofBytes 16 [])
  directory := { entries := contents.map r.entry, maxSections := defaultMaxSections }
  modified := true

theorem add_container (h : contents.length < defaultMaxSections.toNat) :
    Container.add r.options (r.container contents) = .ok contents.length
      { r.container contents with directory :=
        { entries := contents.map r.entry ++ [.fresh r.options.header r.threshold]
          maxSections := defaultMaxSections } } := by
  have hsize : (r.container contents).directory.size = contents.length := List.length_map ..
  have hroom : ¬ (r.container contents).directory.maxSections.toNat ≤ contents.length :=
    Nat.not_le.2 h
  rw [Container.add_eq, hsize, if_neg hroom]
  rfl

/-- Writing a payload to a new section makes it the section of a file. -/
theorem write_container (r : Packing) (contents : List Bytes) (bs : Bytes) :
    Container.write contents.length bs { r.container contents with directory :=
        { entries := contents.map r.entry ++ [.fresh r.options.header r.threshold]
          maxSections := defaultMaxSections } } =
      .ok () (r.container (contents ++ [bs])) := by
  have hlength : contents.length = (contents.map r.entry).length := (List.length_map ..).symm
  have hentry : (contents.map r.entry ++ [Entry.fresh r.options.header r.threshold])[
      contents.length]? = some (.fresh r.options.header r.threshold) := by
    rw [hlength, List.getElem?_concat_length]
  have hset : (contents.map r.entry ++ [Entry.fresh r.options.header r.threshold]).set
      contents.length (r.entry bs) = (contents ++ [bs]).map r.entry := by
    rw [hlength, List.set_append_right _ _ (Nat.le_refl _), Nat.sub_self, List.map_append]
    rfl
  rw [Container.write_eq]
  simp only [hentry]
  unfold container Directory.set
  simp only
  rw [← hset]
  rfl

/-- Adding the inputs one by one leaves the files as they are. -/
theorem gives_packFiles {inputs : List String} {more : List Bytes}
    (houtput : d.node? output = some (.file []))
    (hinputs : List.Forall₂ (fun path bs => ∃ place, d.openFile path = .ok (place, bs)) inputs more)
    (hroom : contents.length + more.length ≤ defaultMaxSections.toNat) :
    Gives (packFiles r.options inputs ⟨output, r.container contents⟩) d
      ⟨output, r.container (contents ++ more)⟩ d := by
  induction hinputs generalizing contents with
  | nil =>
    rw [List.append_nil]
    exact gives_pure _ _
  | @cons path bs inputs more hopen _ ih =>
    obtain ⟨place, hopen⟩ := hopen
    rw [List.length_cons] at hroom
    have hadd := @add_container r contents (by omega)
    have hagrees : ∀ c : Container, c.storage.content = [] → FileContainer.Agrees d ⟨output, c⟩ := by
      intro c hc
      exact (WorkingDirectory.content_of_node? houtput).trans hc.symm
    have hrest := @ih (contents ++ [bs]) (by
      rw [List.length_append, List.length_singleton]
      omega)
    rw [List.append_assoc, List.singleton_append] at hrest
    unfold packFiles
    refine (gives_ofFiles (a := bs) ?_).bind ?_
    · rw [hopen]
      rfl
    · refine (gives_operate (FileContainer.run_of_ok (hagrees _ rfl) hadd rfl)).bind ?_
      refine (gives_operate (FileContainer.run_of_ok (hagrees _ rfl)
        (write_container r contents bs) rfl)).bind ?_
      exact (gives_say _ d).bind hrest

/-! ### Saving them -/

theorem savedAs_entry (r : Packing) (content bs : Bytes) :
    (r.entry bs).SavedAs content (r.piece bs) := ⟨rfl, rfl, rfl⟩

/-- A new file refuses nothing that saving asks for. -/
theorem obliging_container (r : Packing) (contents : List Bytes) :
    (r.container contents).storage.Obliging := by
  intro op hop
  cases op with
  | reach position => exact absurd rfl (hop position)
  | _ => rfl

/-- Closing the container saves the image. -/
theorem close_container (hversion : MainHeader.isKnownVersion r.version = true)
    (hsizes : ∀ bs ∈ contents,
      bs.length < UInt32.size ∧ (r.piece bs).packed.length < UInt32.size) :
    ∃ c, Container.close (r.container contents) = .ok () c ∧
      c.storage.content = (r.image contents).bytes := by
  have hloadable : (r.container contents).Loadable := by
    refine ⟨obliging_container r contents, ?_⟩
    intro e he hnone
    obtain ⟨bs, -, rfl⟩ := List.mem_map.1 he
    cases hnone
  have hflags : ∀ e ∈ (r.container contents).directory.entries, Flags.Valid e.requestedFlags := by
    intro e he
    obtain ⟨bs, -, rfl⟩ := List.mem_map.1 he
    exact Flags.valid_select _ _
  have hsaved : List.Forall₂ (Entry.SavedAs (r.container contents).storage.content)
      (r.container contents).directory.entries (contents.map r.piece) := by
    unfold container
    rw [List.forall₂_map_left_iff, List.forall₂_map_right_iff, List.forall₂_same]
    intro bs _
    exact savedAs_entry r _ bs
  have hfits : (contents.map r.piece).zipIdx.findSome?
      (fun p => Container.tooLong? p.2 p.1) = none := by
    rw [List.findSome?_eq_none_iff]
    rintro ⟨p, i⟩ hp
    obtain ⟨bs, hbs, rfl⟩ := List.mem_map.1
      (List.mem_of_getElem? (List.mk_mem_zipIdx_iff_getElem?.1 hp))
    obtain ⟨hraw, hpacked⟩ := hsizes bs hbs
    have hraw' : ¬ UInt32.size ≤ (r.piece bs).raw.length := Nat.not_le.2 hraw
    unfold Container.tooLong?
    rw [if_neg hraw', if_neg (Nat.not_le.2 hpacked)]
  obtain ⟨c, -, -, hsave⟩ := Container.save_of_loadable hloadable rfl hversion hflags hsaved
  rw [hfits] at hsave
  have hmodified : (r.container contents).isModified = true := rfl
  have hclose := Container.close_eq (r.container contents)
  rw [if_pos hmodified, hsave.2] at hclose
  exact ⟨_, hclose, rfl⟩

/-! ### The whole command -/

/-- The inputs can be packed: the version is known, there is room for that many sections, the output
can be created and is none of the inputs, all of which can be read, and the sizes before and after
packing can be written down. -/
structure Packable (r : Packing) (d : WorkingDirectory) (output : Place) (contents : List Bytes) :
    Prop where
  version : r.version = 1 ∨ r.version = 2
  count : contents.length ≤ 65535
  created : ∃ d', d.createFile r.output = .ok (output, d')
  inputs : List.Forall₂ (fun path bs => ∃ place, d.openFile path = .ok (place, bs) ∧ place ≠ output)
    r.inputs contents
  sizes : ∀ bs ∈ contents, bs.length < UInt32.size ∧ (r.piece bs).packed.length < UInt32.size

theorem Packable.known (h : r.Packable d output contents) :
    MainHeader.isKnownVersion r.version = true := by
  rcases h.version with hversion | hversion <;> rw [hversion] <;> rfl

/-- A file that is read is read as before when another one was written. -/
theorem openFile_put {path : String} {place : Place} {bs : Bytes} {node : Node}
    (hopen : d.openFile path = .ok (place, bs)) (hne : place ≠ output)
    (houtput : d.node? output ≠ some .directory) :
    (d.put output node).openFile path = .ok (place, bs) := by
  obtain ⟨hnames, hresolve, hnode⟩ := WorkingDirectory.openFile_eq_ok_iff.1 hopen
  refine WorkingDirectory.openFile_eq_ok_iff.2 ⟨hnames, ?_, ?_⟩
  · exact WorkingDirectory.resolve_of_keeps (WorkingDirectory.keepsDirectories_put houtput _)
      hresolve
  · rw [WorkingDirectory.node?_put (WorkingDirectory.isAnchor_of_node? houtput), if_neg hne]
    exact hnode

theorem bytes_image_ne_nil (r : Packing) (contents : List Bytes) :
    (r.image contents).bytes ≠ [] := by
  intro hnil
  have hlength := congrArg List.length hnil
  unfold image at hlength
  rw [Container.length_bytes_imageOf, List.length_nil] at hlength
  omega

def packed (r : Packing) (d : WorkingDirectory) (output : Place) (contents : List Bytes) :
    WorkingDirectory := d.written output (r.image contents).bytes

theorem Packable.node?_packed (h : r.Packable d output contents) (p : Place) :
    (r.packed d output contents).node? p =
      if p = output then some (.file (r.image contents).bytes) else d.node? p := by
  obtain ⟨d₁, hcreate⟩ := h.created
  obtain ⟨-, -, hplace, -⟩ := WorkingDirectory.createFile_eq_ok_iff.1 hcreate
  exact WorkingDirectory.node?_written (WorkingDirectory.isAnchor_of_node? hplace) p

/-- Packing succeeds; it makes the output and writes the image to it. -/
theorem Packable.gives_perform (h : r.Packable d output contents) :
    Gives r.perform d () (r.packed d output contents) := by
  obtain ⟨d₁, hcreate⟩ := h.created
  obtain ⟨-, hresolve, hplace, rfl⟩ := WorkingDirectory.createFile_eq_ok_iff.1 hcreate
  have hempty : (d.put output (.file [])).node? output = some (.file []) := by
    rw [WorkingDirectory.node?_put (WorkingDirectory.isAnchor_of_node? hplace), if_pos rfl]
  have hinputs : List.Forall₂ (fun path bs => ∃ place,
      (d.put output (.file [])).openFile path = .ok (place, bs)) r.inputs contents := by
    refine h.inputs.imp ?_
    rintro path bs ⟨place, hopen, hne⟩
    exact ⟨place, openFile_put hopen hne hplace⟩
  have hroom : ([] : List Bytes).length + contents.length ≤ defaultMaxSections.toNat := by
    rw [List.length_nil, Nat.zero_add]
    exact h.count
  obtain ⟨c, hclose, hcontent⟩ := close_container h.known h.sizes
  have hrun : FileContainer.run Container.close (d.put output (.file []))
      ⟨output, r.container contents⟩ =
        (.ok (), r.packed d output contents, ⟨output, c⟩) := by
    have hagrees : FileContainer.Agrees (d.put output (.file [])) ⟨output, r.container contents⟩ :=
      WorkingDirectory.content_of_node? hempty
    have hne : ¬ (d.put output (.file [])).content output = (r.image contents).bytes := by
      rw [WorkingDirectory.content_of_node? hempty]
      exact Ne.symm (bytes_image_ne_nil r contents)
    unfold FileContainer.run FileContainer.flush packed WorkingDirectory.written
    rw [FileContainer.refresh_of_agrees hagrees, hclose]
    simp only [hcontent, if_neg hne]
  have hmake : FileContainer.createPath d r.output { ty := r.containerType, version := r.version } =
      .ok (⟨output, r.container []⟩, d.put output (.file [])) := by
    unfold FileContainer.createPath
    rw [FileContainer.checkPath_of_resolve hresolve hplace, hcreate]
    rfl
  unfold perform
  refine (gives_checksumNamed _ d).bind ?_
  refine (gives_packingNamed _ d).bind ?_
  refine (gives_onFiles hmake).bind ?_
  refine (gives_packFiles hempty hinputs hroom).bind ?_
  refine (gives_operate hrun).bind ?_
  exact gives_say _ _

/-- The output can be opened as it was created, and holds the image. -/
theorem Packable.openFile_packed (h : r.Packable d output contents) :
    (r.packed d output contents).openFile r.output = .ok (output, (r.image contents).bytes) := by
  obtain ⟨d₁, hcreate⟩ := h.created
  obtain ⟨hnames, hresolve, hplace, -⟩ := WorkingDirectory.createFile_eq_ok_iff.1 hcreate
  refine WorkingDirectory.openFile_eq_ok_iff.2 ⟨hnames, ?_, ?_⟩
  · exact WorkingDirectory.resolve_of_keeps
      (WorkingDirectory.keepsDirectories_written hplace _) hresolve
  · rw [h.node?_packed, if_pos rfl]

end Packing

end CommandLine

end SectionArchive
