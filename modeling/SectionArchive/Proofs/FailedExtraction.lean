import Mathlib
import SectionArchive.Proofs.Extracting
import SectionArchive.Proofs.Leftovers
/-!
Extracting what is not intact. A run stops at the first section whose file cannot be made or whose
payload does not unpack to what its header announces, and says so; but the file of a section that
failed is left with what was delivered before the failure.
-/

namespace SectionArchive

namespace Container

/-- What extracting a section leaves in its file. -/
def leftover (c : Container) (i : Nat) : Bytes :=
  (c.directory.entries[i]?.map fun e => Section.leftover c.storage.content e.header).getD []

def Unpacks (c : Container) (i : Nat) (raw : Bytes) : Prop :=
  ∃ e, c.directory.entries[i]? = some e ∧ Section.Unpacks c.storage.content e.header raw

end Container

namespace FileContainer

variable {d d' : WorkingDirectory} {f : FileContainer}

/-- The file holds the container, none of whose sections is in memory. -/
structure Unread (d : WorkingDirectory) (f : FileContainer) : Prop extends Legible d f where
  sections : ∀ e ∈ f.container.directory.entries, e.payload = none ∧ Flags.Valid e.header.flags

namespace Unread

theorem moved (h : f.Unread d) {s : Storage} (hs : f.container.storage.Moved s) :
    Unread d { f with container := { f.container with storage := s } } :=
  ⟨h.toLegible.moved hs, h.sections⟩

theorem elsewhere (h : f.Unread d) (hsame : d'.node? f.place = d.node? f.place) : f.Unread d' :=
  ⟨h.toLegible.elsewhere hsame, h.sections⟩

/-- Copying a section into a file succeeds when the section unpacks. Whether it does or not, the
file is left with the same. -/
theorem copyInto (h : f.Unread d) (i : Nat) (target : Place) :
    ∃ s, f.container.storage.Moved s ∧
      (f.container.Unpacks i (f.container.leftover i) ∧
          FileContainer.copyInto i target d f =
            (.ok (f.container.leftover i).length, d.put target (.file (f.container.leftover i)),
              { f with container := { f.container with storage := s } }) ∨
        (∀ raw, ¬ f.container.Unpacks i raw) ∧ ∃ e,
          FileContainer.copyInto i target d f =
            (.error e, d.put target (.file (f.container.leftover i)),
              { f with container := { f.container with storage := s } })) := by
  unfold FileContainer.copyInto Container.leftover Container.Unpacks
  rw [refresh_of_agrees h.agrees, Container.copy_eq]
  cases he : f.container.directory.entries[i]? with
  | none =>
    refine ⟨f.container.storage, .refl _, .inr ⟨?_, .unknownSection i, rfl⟩⟩
    rintro raw ⟨e, he', -⟩
    cases he'
  | some e =>
    obtain ⟨hnone, hflags⟩ := h.sections e (List.mem_of_getElem? he)
    obtain ⟨position, sink, hbytes, hcases⟩ := Section.stream_leaves h.readable hflags i
    refine ⟨{ f.container.storage with position }, ⟨position, rfl⟩, ?_⟩
    rcases hcases with ⟨hunpacks, hstream⟩ | ⟨hbroken, err, hstream⟩
    · refine .inl ⟨⟨e, rfl, hunpacks⟩, ?_⟩
      simp only [hnone, hstream, hbytes, Option.map_some, Option.getD_some]
    · refine .inr ⟨?_, err, ?_⟩
      · rintro raw ⟨e', he', hunpacks⟩
        cases he'
        exact hbroken raw hunpacks
      · simp only [hnone, hstream, hbytes, Option.map_some, Option.getD_some]

end Unread

end FileContainer

namespace CommandLine

open Command

variable {d d' : WorkingDirectory} {f : FileContainer} {dir : String} {D : Place} {i : Nat}

variable {r : Extraction} {words : List String}

/-- A container of one section that is stored under the weak checksum, with the first byte of its
payload exchanged for another. -/
def exchanged : Bytes :=
  [0x42, 0x50, 0x58, 0, 0xa4, 0x01, 0xac, 0x4f, 0x42, 0, 0, 0, 0, 0, 0, 0, 1, 0, 0, 0, 1, 0, 0, 0,
    0, 0, 0, 0, 0, 0, 0, 0, 0, 0, 0, 0, 0, 0, 0, 0,
    0x40, 0, 0, 0, 0, 0, 0, 0, 2, 0, 0, 0, 2, 0, 0, 0, 0x0f, 0, 0x16, 0, 5, 8, 0, 0,
    9, 8]

end CommandLine

end SectionArchive
