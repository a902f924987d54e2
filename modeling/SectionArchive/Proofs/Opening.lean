import Mathlib
import SectionArchive.Container.Basic
import SectionArchive.Proofs.FaultFreeStorage
import SectionArchive.Proofs.HeaderFields
/-!
What opening a container comes to. The verdict on some bytes is told without a reader: fields stand
at fixed offsets, complaints have a fixed order, and the bytes that raise none are a container whose
sections are all on storage. Opening gives that verdict wherever the cursor was.
-/

namespace SectionArchive

namespace Flags

theorem packing?_eq_none_iff (flags : UInt8) : packing? flags = none ↔ flags &&& 0x3 = 0x3 := by
  obtain ⟨⟨n, hn⟩⟩ := flags
  revert n
  decide +kernel

theorem packing?_eq_stored_iff (flags : UInt8) :
    packing? flags = some none ↔ flags &&& 0x3 = 0 := by
  obtain ⟨⟨n, hn⟩⟩ := flags
  revert n
  decide +kernel

theorem checksum?_eq_none_iff (flags : UInt8) : checksum? flags = none ↔ flags &&& 0xC = 0xC := by
  obtain ⟨⟨n, hn⟩⟩ := flags
  revert n
  decide +kernel

end Flags

namespace Opening

/-- Why the header of section `index` cannot stand in a container of `fileSize` bytes, if so: both
packing bits or both checksum bits, stored under two sizes, or a place outside the container. -/
def refusal? (fileSize : UInt64) (index : Nat) (h : SectionHeader) : Option Error :=
  if h.flags &&& 0x3 = 0x3 ∨ h.flags &&& 0xC = 0xC ∨ h.flags &&& 0x3 = 0 ∧ h.csize ≠ h.size then
    some (.badFlags index h.flags)
  else if fileSize.toNat < h.pointer.toNat ∨
      fileSize.toNat < min (h.pointer.toNat + h.csize.toNat) (UInt64.size - 1) then
    some (.sectionBounds index h.pointer h.stop fileSize)
  else none

def directory (bs : Bytes) : List SectionHeader :=
  SectionHeader.firstOf (MainHeader.stored bs).sectionCount.toNat (bs.drop 40)

def recomputed (bs : Bytes) : UInt32 :=
  let h := MainHeader.stored bs
  Checksum.checksum (if h.version = 1 then .weak else .crc32)
    ({ h with checksum := 0 }.encode ++ (directory bs).flatMap SectionHeader.encode)

/-- The first complaint about some bytes, or the main header and the section headers they hold. -/
def verdict (maxSections : UInt32) (bs : Bytes) : Except Error (MainHeader × List SectionHeader) :=
  let h := MainHeader.stored bs
  if bs.length < 3 then .error (.io .shortRead)
  else if bs.take 3 ≠ [0x42, 0x50, 0x58] then .error (.badSignature (bs.take 3))
  else if bs.length < 24 then .error (.io .shortRead)
  else if h.version ≠ 1 ∧ h.version ≠ 2 then .error (.badVersion h.version)
  else if bs.length < 40 then .error (.io .shortRead)
  else if maxSections < h.sectionCount then
    .error (.capacity h.sectionCount.toNat maxSections)
  else if bs.length < 40 + 24 * h.sectionCount.toNat then .error (.io .shortRead)
  else if recomputed bs ≠ h.checksum then
    .error (.checksum .mainHeader h.checksum (recomputed bs))
  else
    match (directory bs).zipIdx.findSome? fun p => refusal? h.fileSize p.2 p.1 with
    | some e => .error e
    | none => .ok (h, directory bs)

theorem checkHeader_eq (fileSize : UInt64) (index : Nat) (h : SectionHeader) :
    Directory.checkHeader fileSize index h =
      match refusal? fileSize index h with
      | some e => .error e
      | none => .ok () := by
  have hbounds : (fileSize < h.pointer ∨ fileSize < h.stop) ↔ (fileSize.toNat < h.pointer.toNat ∨
      fileSize.toNat < min (h.pointer.toNat + h.csize.toNat) (UInt64.size - 1)) := by
    rw [UInt64.lt_iff_toNat_lt, UInt64.lt_iff_toNat_lt, SectionHeader.toNat_stop]
  simp only [Directory.checkHeader, SectionHeader.selection, hbounds, refusal?,
    ← Flags.packing?_eq_none_iff, ← Flags.packing?_eq_stored_iff, ← Flags.checksum?_eq_none_iff]
  cases Flags.packing? h.flags with
  | none => rfl
  | some packing =>
    cases Flags.checksum? h.flags with
    | none => simp [bind, Except.bind]
    | some kind =>
      simp only [reduceCtorEq, false_or, Option.some.injEq, Option.isNone_iff_eq_none, bind,
        Except.bind]
      split
      · rfl
      · split <;> rfl

theorem checkFrom_eq (fileSize : UInt64) (index : Nat) (headers : List SectionHeader) :
    Directory.checkFrom fileSize index headers =
      match (headers.zipIdx index).findSome? fun p => refusal? fileSize p.2 p.1 with
      | some e => .error e
      | none => .ok () := by
  induction headers generalizing index with
  | nil => rfl
  | cons h rest ih =>
    rw [Directory.checkFrom, checkHeader_eq, List.zipIdx_cons, List.findSome?_cons]
    cases refusal? fileSize index h with
    | some e => rfl
    | none => exact ih (index + 1)

theorem load_eq (bs : Bytes) (count maxSections : UInt32) :
    Directory.load bs count maxSections =
      if maxSections < count then .error (.capacity count.toNat maxSections)
      else if bs.length < count.toNat * SectionHeader.width then .error (.io .shortRead)
      else .ok (
        { entries := (SectionHeader.firstOf count.toNat bs).map Entry.ofStored, maxSections },
        bs.drop (count.toNat * SectionHeader.width)) := by
  simp only [Directory.load, SectionHeader.decodeList_eq]
  split
  · rfl
  · split <;> rfl

theorem load_eq_ok_iff {bs rest : Bytes} {count maxSections : UInt32} {d : Directory} :
    Directory.load bs count maxSections = .ok (d, rest) ↔
      ¬ maxSections < count ∧ 24 * count.toNat ≤ bs.length ∧
        d = { entries := (SectionHeader.firstOf count.toNat bs).map Entry.ofStored, maxSections } ∧
        rest = bs.drop (24 * count.toNat) := by
  rw [load_eq, SectionHeader.width, Nat.mul_comm]
  constructor
  · intro hok
    split_ifs at hok with hcapacity hshort
    cases hok
    exact ⟨hcapacity, Nat.not_lt.1 hshort, rfl, rfl⟩
  · rintro ⟨hcapacity, hlong, rfl, rfl⟩
    rw [if_neg hcapacity, if_neg (Nat.not_lt.2 hlong)]

theorem isKnownVersion_eq_false_iff (v : UInt32) :
    MainHeader.isKnownVersion v = false ↔ v ≠ 1 ∧ v ≠ 2 := by
  simp [MainHeader.isKnownVersion]

theorem isKnownVersion_iff (v : UInt32) :
    MainHeader.isKnownVersion v = true ↔ ¬ (v ≠ 1 ∧ v ≠ 2) := by
  rw [← isKnownVersion_eq_false_iff, Bool.not_eq_false]

theorem verifyChecksum_eq (bs : Bytes) :
    (MainHeader.stored bs).verifyChecksum (directory bs) =
      if recomputed bs ≠ (MainHeader.stored bs).checksum then
        .error (.checksum .mainHeader (MainHeader.stored bs).checksum (recomputed bs))
      else .ok () := by
  simp only [MainHeader.verifyChecksum, MainHeader.computeChecksum_eq]
  rfl

theorem headers_map_ofStored (headers : List SectionHeader) (maxSections : UInt32) :
    Directory.headers { entries := headers.map Entry.ofStored, maxSections } = headers := by
  simp [Directory.headers, Function.comp_def, Entry.ofStored]

/-- The container that headers found on a storage make: every section is on storage alone. -/
def opened (maxSections : UInt32) (storage : Storage) (h : MainHeader)
    (headers : List SectionHeader) : Container where
  storage
  header := h
  directory :=
    { maxSections
      entries := headers.map fun s =>
        { header := s, payload := none, threshold := none, requestedFlags := s.flags
          persisted := true } }
  modified := false

theorem headers_opened (maxSections : UInt32) (storage : Storage) (h : MainHeader)
    (headers : List SectionHeader) :
    (opened maxSections storage h headers).directory.headers = headers :=
  headers_map_ofStored headers maxSections

theorem entries_opened (maxSections : UInt32) (storage : Storage) (h : MainHeader)
    (headers : List SectionHeader) (i : Nat) :
    (opened maxSections storage h headers).directory.entries[i]? =
      headers[i]?.map Entry.ofStored := List.getElem?_map ..

end Opening

open Opening

theorem ofExcept_ok {ε σ α : Type} (a : α) (s : σ) :
    (ofExcept (.ok a : Except ε α) : EStateM ε σ α) s = .ok a s := rfl

theorem Container.ofStorage_of_readable {s : Storage} (hseek : s.refuses .seek = none)
    (hread : s.refuses .read = none) (maxSections : UInt32) :
    Container.ofStorage maxSections s =
      match verdict maxSections s.content with
      | .error e => .error e { s with position := s.content.length }
      | .ok (h, headers) =>
        .ok (opened maxSections { s with position := s.content.length } h headers)
          { s with position := s.content.length } := by
  obtain ⟨bs, position, refuses⟩ := s
  have hread' : Storage.refuses { content := bs, position := 0, refuses } .read = none := hread
  have hmagic : MainHeader.magic.val = [0x42, 0x50, 0x58] := rfl
  simp only [Container.ofStorage, bind, EStateM.bind, Section.onStorage, Storage.seek_zero hseek,
    Storage.readToEnd_eq hread', List.drop_zero, MainHeader.decode_eq, isKnownVersion_eq_false_iff,
    hmagic, verdict]
  by_cases h3 : bs.length < 3
  · simp only [if_pos h3]
    rfl
  by_cases hletters : bs.take 3 ≠ [0x42, 0x50, 0x58]
  · simp only [if_neg h3, if_pos hletters]
    rfl
  by_cases h24 : bs.length < 24
  · simp only [if_neg h3, if_neg hletters, if_pos h24]
    rfl
  by_cases hversion : (MainHeader.stored bs).version ≠ 1 ∧ (MainHeader.stored bs).version ≠ 2
  · simp only [if_neg h3, if_neg hletters, if_neg h24, if_pos hversion]
    rfl
  by_cases h40 : bs.length < 40
  · simp only [if_neg h3, if_neg hletters, if_neg h24, if_neg hversion, if_pos h40]
    rfl
  simp only [if_neg h3, if_neg hletters, if_neg h24, if_neg hversion, if_neg h40, ofExcept_ok,
    load_eq]
  by_cases hcapacity : maxSections < (MainHeader.stored bs).sectionCount
  · simp only [if_pos hcapacity]
    rfl
  have hiff :
      (bs.drop 40).length < (MainHeader.stored bs).sectionCount.toNat * SectionHeader.width ↔
        bs.length < 40 + 24 * (MainHeader.stored bs).sectionCount.toNat := by
    rw [List.length_drop, SectionHeader.width]
    omega
  by_cases hshort : bs.length < 40 + 24 * (MainHeader.stored bs).sectionCount.toNat
  · simp only [if_neg hcapacity, hiff, if_pos hshort]
    rfl
  simp only [if_neg hcapacity, hiff, if_neg hshort, ofExcept_ok, headers_map_ofStored]
  rw [← Opening.directory, verifyChecksum_eq]
  by_cases hsum : recomputed bs ≠ (MainHeader.stored bs).checksum
  · simp only [if_pos hsum]
    rfl
  simp only [if_neg hsum, ofExcept_ok, Directory.validate, headers_map_ofStored, checkFrom_eq]
  cases ((Opening.directory bs).zipIdx).findSome?
      fun p => refusal? (MainHeader.stored bs).fileSize p.2 p.1 with
  | some e => rfl
  | none => rfl

namespace Opening

theorem length_directory (bs : Bytes) :
    (directory bs).length = (MainHeader.stored bs).sectionCount.toNat := by
  rw [directory, SectionHeader.firstOf, List.length_map, List.length_range]

structure Accepted (maxSections : UInt32) (bs : Bytes) : Prop where
  magic : bs.take 3 = [0x42, 0x50, 0x58]
  known : ¬ ((MainHeader.stored bs).version ≠ 1 ∧ (MainHeader.stored bs).version ≠ 2)
  allowed : ¬ maxSections < (MainHeader.stored bs).sectionCount
  long : 40 + 24 * (MainHeader.stored bs).sectionCount.toNat ≤ bs.length
  sum : recomputed bs = (MainHeader.stored bs).checksum
  unrefused : (directory bs).zipIdx.findSome?
    (fun p => refusal? (MainHeader.stored bs).fileSize p.2 p.1) = none

theorem verdict_eq_ok_iff {maxSections : UInt32} {bs : Bytes} {h : MainHeader}
    {headers : List SectionHeader} :
    verdict maxSections bs = .ok (h, headers) ↔
      Accepted maxSections bs ∧ h = MainHeader.stored bs ∧ headers = directory bs := by
  constructor
  · intro hok
    simp only [verdict] at hok
    split_ifs at hok with h3 hletters h24 hversion h40 hcapacity hshort hsum
    split at hok
    · cases hok
    · next hrefusal =>
      cases hok
      exact ⟨⟨not_not.1 hletters, hversion, hcapacity, Nat.le_of_not_lt hshort, not_not.1 hsum,
        hrefusal⟩, rfl, rfl⟩
  · rintro ⟨⟨hmagic, hversion, hcapacity, hlong, hsum, hrefusal⟩, rfl, rfl⟩
    simp only [verdict, hmagic, hsum, hrefusal, ne_eq, not_true_eq_false, if_false]
    rw [if_neg (by omega), if_neg (by omega), if_neg hversion, if_neg (by omega), if_neg hcapacity,
      if_neg (by omega)]

/-- What a container was found to be does not depend on how many sections were allowed, if they were
enough. -/
theorem verdict_eq_ok {maxSections : UInt32} {bs : Bytes} {h : MainHeader}
    {headers : List SectionHeader} (hok : verdict maxSections bs = .ok (h, headers)) :
    h.signature = MainHeader.magic ∧ MainHeader.isKnownVersion h.version = true ∧
      headers.length ≤ maxSections.toNat ∧
      ∀ limit : UInt32, headers.length ≤ limit.toNat → verdict limit bs = .ok (h, headers) := by
  obtain ⟨haccepted, rfl, rfl⟩ := verdict_eq_ok_iff.1 hok
  rw [length_directory]
  refine ⟨rfl, ?_, ?_, fun limit hlimit => ?_⟩
  · exact (isKnownVersion_iff _).2 haccepted.known
  · exact UInt32.le_iff_toNat_le.1 (UInt32.not_lt.1 haccepted.allowed)
  · have hroom : ¬ limit < (MainHeader.stored bs).sectionCount :=
      UInt32.not_lt.2 (UInt32.le_iff_toNat_le.2 hlimit)
    exact verdict_eq_ok_iff.2 ⟨{ haccepted with allowed := hroom }, rfl, rfl⟩

theorem refusal?_index {fileSize : UInt64} {i : Nat} {h : SectionHeader}
    (hnone : refusal? fileSize i h = none) (j : Nat) : refusal? fileSize j h = none := by
  unfold refusal? at hnone ⊢
  split_ifs at hnone with hflags hplace
  rw [if_neg hflags, if_neg hplace]

/-- No header of a container that was found raises a complaint, wherever it stands. -/
theorem unrefused_of_verdict {maxSections : UInt32} {bs : Bytes} {h : MainHeader}
    {headers : List SectionHeader} (hok : verdict maxSections bs = .ok (h, headers))
    {t : SectionHeader} (ht : t ∈ headers) (index : Nat) : refusal? h.fileSize index t = none := by
  obtain ⟨haccepted, rfl, rfl⟩ := verdict_eq_ok_iff.1 hok
  obtain ⟨i, hi, rfl⟩ := List.getElem_of_mem ht
  exact refusal?_index (List.findSome?_eq_none_iff.1 haccepted.unrefused _
    (List.mk_mem_zipIdx_iff_getElem?.2 (List.getElem?_eq_getElem hi))) index

theorem stored_take {bs : Bytes} {n : Nat} (h : 40 ≤ n) :
    MainHeader.stored (bs.take n) = MainHeader.stored bs := by
  have htype : ((bs.take n).drop 24).take 16 = (bs.drop 24).take 16 := by
    rw [List.drop_take, List.take_take, Nat.min_eq_left (by omega)]
  simp (disch := omega) only [MainHeader.stored, SectionHeader.field_take, htype]

theorem nth_take {bs : Bytes} {n i : Nat} (h : i * 24 + 24 ≤ n) :
    SectionHeader.nth (bs.take n) i = SectionHeader.nth bs i := by
  rw [SectionHeader.nth, SectionHeader.nth, ← SectionHeader.ofBlock_take (bs.drop _), List.drop_take,
    ← SectionHeader.ofBlock_take, List.take_take, Nat.min_eq_left]
  simp only [SectionHeader.width]
  omega

theorem directory_take {bs : Bytes} {n : Nat}
    (h : 40 + 24 * (MainHeader.stored bs).sectionCount.toNat ≤ n) :
    directory (bs.take n) = directory bs := by
  rw [directory, directory, stored_take (by omega), SectionHeader.firstOf, SectionHeader.firstOf]
  refine List.map_congr_left fun i hi => ?_
  have hi := List.mem_range.1 hi
  rw [List.drop_take, nth_take (by omega)]

/-- What is behind the directory is not looked at. -/
theorem verdict_congr {maxSections : UInt32} {bs bs' : Bytes} {h : MainHeader}
    {headers : List SectionHeader} (hok : verdict maxSections bs = .ok (h, headers))
    (hsame : bs'.take (40 + 24 * headers.length) = bs.take (40 + 24 * headers.length)) :
    verdict maxSections bs' = .ok (h, headers) := by
  obtain ⟨⟨hletters, hversion, hcapacity, hlong, hsum, hrefusal⟩, rfl, rfl⟩ :=
    verdict_eq_ok_iff.1 hok
  rw [length_directory] at hsame
  have hlong' : 40 + 24 * (MainHeader.stored bs).sectionCount.toNat ≤ bs'.length := by
    have hlength := congrArg List.length hsame
    rw [List.length_take, List.length_take] at hlength
    omega
  have hstored : MainHeader.stored bs' = MainHeader.stored bs := by
    rw [← @stored_take bs' _ (Nat.le_add_right 40 _), hsame, stored_take (by omega)]
  have hdirectory : directory bs' = directory bs := by
    rw [← @directory_take bs' _ (by rw [hstored]), hsame, directory_take (Nat.le_refl _)]
  have hmagic : bs'.take 3 = bs.take 3 := by
    have htake := congrArg (List.take 3) hsame
    rwa [List.take_take, List.take_take, Nat.min_eq_left (by omega)] at htake
  have hrecomputed : recomputed bs' = recomputed bs := by
    simp only [recomputed, hstored, hdirectory]
  refine verdict_eq_ok_iff.2 ⟨⟨hmagic.trans hletters, ?_, ?_, ?_, ?_, ?_⟩, hstored.symm,
    hdirectory.symm⟩
  all_goals simp only [hstored, hdirectory, hrecomputed]
  · exact hversion
  · exact hcapacity
  · exact hlong'
  · exact hsum
  · exact hrefusal

end Opening

/-- What was opened is what the verdict on the bytes says, whatever else the storage refuses. -/
theorem Container.ofStorage_ok {s s' : Storage} {maxSections : UInt32} {c : Container}
    (h : Container.ofStorage maxSections s = .ok c s') :
    ∃ position header headers, verdict maxSections s.content = .ok (header, headers) ∧
      c = opened maxSections { s with position } header headers := by
  cases hseek : s.refuses .seek with
  | some f =>
    simp only [ofStorage, bind, EStateM.bind, Section.onStorage,
      Storage.seek_of_refused hseek] at h
    cases h
  | none =>
    cases hread : s.refuses .read with
    | some f =>
      have hread' : Storage.refuses { s with position := 0 } .read = some f := hread
      simp only [ofStorage, bind, EStateM.bind, Section.onStorage, Storage.seek_zero hseek,
        Storage.readToEnd, Storage.ask_of_refused hread'] at h
      cases h
    | none =>
      rw [ofStorage_of_readable hseek hread] at h
      cases hverdict : verdict maxSections s.content with
      | error e =>
        rw [hverdict] at h
        cases h
      | ok r =>
        rw [hverdict] at h
        cases h
        exact ⟨_, _, _, rfl, rfl⟩

/-- Opening some bytes gives the verdict on them, wherever the cursor was, and leaves them as they
are. -/
theorem Container.ofStorage_eq_verdict (maxSections : UInt32) (bs : Bytes) (position : Nat) :
    Container.ofStorage maxSections { content := bs, position } =
      match verdict maxSections bs with
      | .error e => .error e { content := bs, position := bs.length }
      | .ok (h, headers) =>
        .ok (opened maxSections { content := bs, position := bs.length } h headers)
          { content := bs, position := bs.length } :=
  Container.ofStorage_of_readable rfl rfl maxSections

end SectionArchive
