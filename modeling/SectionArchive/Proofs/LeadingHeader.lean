import Mathlib
import SectionArchive.Proofs.Admission
import SectionArchive.Proofs.Streaming
/-!
The main header read from leading bytes against the one of an opened container. Both begin with the
same reader; then opening looks at the count before anything else, and goes on to the checks of the
single sections. Where the leading bytes hold the directory, both verify one checksum of the same
bytes: it lies in the bytes for every count, and no count is too large for its end to be told in 64
bits.
-/

namespace SectionArchive

namespace MainHeader

variable {h : MainHeader} {bs rest : Bytes} {e : Error}

theorem decodeLeading_of_error (hdecode : decode bs = .error e) :
    decodeLeading bs = .error e := by
  rw [decodeLeading, hdecode]
  rfl

theorem coversDirectory_iff (h : MainHeader) (len : Nat) :
    h.coversDirectory len = true ↔ 40 + 24 * h.sectionCount.toNat ≤ len := by
  rw [coversDirectory, payloadStart, width, SectionHeader.width, Nat.mul_comm 24]
  exact decide_eq_true_iff

/-- Behind a main header that was read, the checksum is verified if there is all that it covers. -/
theorem decodeLeading_of_ok (hdecode : decode bs = .ok (h, rest)) :
    decodeLeading bs =
      if h.coversDirectory bs.length then
        match h.verifyChecksum (Opening.directory bs) with
        | .error e => .error e
        | .ok () => .ok h
      else .ok h := by
  obtain ⟨-, -, -, hstored, hrest⟩ := decode_eq_ok_iff.1 hdecode
  rw [decodeLeading, hdecode]
  simp only [bind, Except.bind]
  by_cases hcovers : h.coversDirectory bs.length = true
  · have hlong := (coversDirectory_iff h bs.length).1 hcovers
    have henough : ¬ rest.length < h.sectionCount.toNat * SectionHeader.width := by
      rw [hrest, List.length_drop, SectionHeader.width]
      omega
    rw [if_pos hcovers, if_pos hcovers, SectionHeader.decodeList_eq, if_neg henough, hrest,
      Opening.directory, ← hstored]
    dsimp only
    cases h.verifyChecksum (SectionHeader.firstOf h.sectionCount.toNat (bs.drop 40)) <;> rfl
  · rw [if_neg hcovers, if_neg hcovers]
    rfl

end MainHeader

namespace Opening

variable {h : MainHeader} {bs rest : Bytes} {e : Error}

theorem verdict_of_error (hdecode : MainHeader.decode bs = .error e) (maxSections : UInt32) :
    verdict maxSections bs = .error e := by
  have hmagic : MainHeader.magic.val = [0x42, 0x50, 0x58] := rfl
  simp only [MainHeader.decode_eq, isKnownVersion_eq_false_iff, hmagic] at hdecode
  rw [verdict]
  split_ifs at hdecode ⊢
  all_goals
    cases hdecode
    rfl

/-- What opening still has to say about bytes whose main header was read. -/
theorem verdict_of_ok (hdecode : MainHeader.decode bs = .ok (h, rest)) (maxSections : UInt32) :
    verdict maxSections bs =
      if maxSections < h.sectionCount then .error (.capacity h.sectionCount.toNat maxSections)
      else if h.coversDirectory bs.length then
        match h.verifyChecksum (directory bs) with
        | .error e => .error e
        | .ok () =>
          match (directory bs).zipIdx.findSome? fun p => refusal? h.fileSize p.2 p.1 with
          | some e => .error e
          | none => .ok (h, directory bs)
      else .error (.io .shortRead) := by
  obtain ⟨hmagic, hknown, hlong, rfl, -⟩ := MainHeader.decode_eq_ok_iff.1 hdecode
  have hversion := (isKnownVersion_iff _).1 hknown
  have hletters : ¬ bs.take 3 ≠ [0x42, 0x50, 0x58] := not_not.2 hmagic
  rw [verdict, if_neg (by omega), if_neg hletters, if_neg (by omega), if_neg hversion,
    if_neg (by omega)]
  by_cases hcapacity : maxSections < (MainHeader.stored bs).sectionCount
  · rw [if_pos hcapacity, if_pos hcapacity]
  rw [if_neg hcapacity, if_neg hcapacity]
  by_cases hcovers : (MainHeader.stored bs).coversDirectory bs.length = true
  · rw [if_pos hcovers, if_neg (Nat.not_lt.2 ((MainHeader.coversDirectory_iff _ _).1 hcovers)),
      verifyChecksum_eq]
    by_cases hsum : recomputed bs ≠ (MainHeader.stored bs).checksum
    · rw [if_pos hsum, if_pos hsum]
    -- both sides look for a refusal in the same place
    · cases (directory bs).zipIdx.findSome?
        (fun p => refusal? (MainHeader.stored bs).fileSize p.2 p.1) with
      | some e => simp only [if_neg hsum]
      | none => simp only [if_neg hsum]
  · rw [if_neg hcovers, if_pos (Nat.not_le.1 (mt (MainHeader.coversDirectory_iff _ _).2 hcovers))]

end Opening

/-! ### The directory as a slice -/

def Bytes.slice? (start stop : Nat) (bs : Bytes) : Option Bytes :=
  if start ≤ stop ∧ stop ≤ bs.length then some ((bs.drop start).take (stop - start)) else none

namespace MainHeader

/-- The end of a directory of `count` sections, told in 64 bits. -/
def directoryEnd (count : UInt32) : UInt64 := 40 + count.toUInt64 * 24

/-- It never wraps around. -/
theorem toNat_directoryEnd (count : UInt32) :
    (directoryEnd count).toNat = 40 + 24 * count.toNat := by
  have hcount := count.toNat_lt
  rw [directoryEnd, UInt64.toNat_add, UInt64.toNat_mul, UInt32.toNat_toUInt64]
  simp only [UInt64.reduceToNat]
  omega

/-- Read a main header, and the directory from the slice between the main header and the directory's
end; `none` if there is no such slice. -/
def decodeBySlice (bs : Bytes) : Option (Except Error MainHeader) :=
  match decode bs with
  | .error e => some (.error e)
  | .ok (h, _) =>
    if (directoryEnd h.sectionCount).toNat ≤ bs.length then
      match bs.slice? 40 (directoryEnd h.sectionCount).toNat with
      | none => none
      | some block =>
        match SectionHeader.decodeList h.sectionCount.toNat block with
        | .error e => some (.error e)
        | .ok (directory, _) =>
          match h.verifyChecksum directory with
          | .error e => some (.error e)
          | .ok () => some (.ok h)
    else some (.ok h)

/-- Whatever the count is, the slice is there, and it holds the directory. -/
theorem decodeBySlice_eq (bs : Bytes) : decodeBySlice bs = some (decodeLeading bs) := by
  rw [decodeBySlice]
  cases hdecode : decode bs with
  | error e => rw [decodeLeading_of_error hdecode]
  | ok r =>
    obtain ⟨h, rest⟩ := r
    obtain ⟨-, -, -, hstored, -⟩ := decode_eq_ok_iff.1 hdecode
    rw [decodeLeading_of_ok hdecode]
    simp only [toNat_directoryEnd]
    by_cases hlong : 40 + 24 * h.sectionCount.toNat ≤ bs.length
    · have hslice : bs.slice? 40 (40 + 24 * h.sectionCount.toNat) =
          some ((bs.drop 40).take (24 * h.sectionCount.toNat)) := by
        rw [Bytes.slice?, if_pos ⟨Nat.le_add_right .., hlong⟩, Nat.add_sub_cancel_left]
      have henough : ¬ ((bs.drop 40).take (24 * h.sectionCount.toNat)).length <
          h.sectionCount.toNat * SectionHeader.width := by
        rw [List.length_take, List.length_drop, SectionHeader.width]
        omega
      have hblock : SectionHeader.firstOf h.sectionCount.toNat
          ((bs.drop 40).take (24 * h.sectionCount.toNat)) = Opening.directory bs := by
        rw [hstored, ← Opening.directory_take (Nat.le_refl _), Opening.directory,
          Opening.stored_take (Nat.le_add_right ..), List.drop_take, Nat.add_sub_cancel_left]
      rw [if_pos hlong, if_pos ((coversDirectory_iff _ _).2 hlong), hslice]
      simp only [SectionHeader.decodeList_eq, if_neg henough, hblock]
      cases h.verifyChecksum (Opening.directory bs) <;> rfl
    · rw [if_neg hlong, if_neg (mt (coversDirectory_iff _ _).1 hlong)]

end MainHeader

/-! ### Leading bytes and whole containers -/

theorem Container.answer_ofStorage_eq_error_iff {maxSections : UInt32} {bs : Bytes}
    {position : Nat} {e : Error} :
    answer (Container.ofStorage maxSections { content := bs, position }) = .error e ↔
      Opening.verdict maxSections bs = .error e := by
  rw [Container.ofStorage_of_readable rfl rfl]
  cases Opening.verdict maxSections bs with
  | error e' => simp only [answer, Except.error.injEq]
  | ok r => simp only [answer, reduceCtorEq]

theorem Container.verdict_of_answer_ofStorage {maxSections : UInt32} {bs : Bytes} {position : Nat}
    {c : Container}
    (hopen : answer (Container.ofStorage maxSections { content := bs, position }) = .ok c) :
    ∃ headers, Opening.verdict maxSections bs = .ok (c.header, headers) := by
  rw [Container.ofStorage_of_readable rfl rfl] at hopen
  cases hverdict : Opening.verdict maxSections bs with
  | error e =>
    simp only [hverdict, answer, reduceCtorEq] at hopen
  | ok r =>
    simp only [hverdict, answer, Except.ok.injEq] at hopen
    subst hopen
    exact ⟨r.2, rfl⟩

namespace Opening

variable {h : MainHeader} {headers : List SectionHeader} {bs : Bytes} {e : Error}
  {maxSections : UInt32}

theorem verifyChecksum_cases (h : MainHeader) (headers : List SectionHeader) :
    h.verifyChecksum headers = .ok () ∨
      ∃ actual, h.verifyChecksum headers = .error (.checksum .mainHeader h.checksum actual) := by
  rw [MainHeader.verifyChecksum]
  split
  · exact .inr ⟨_, rfl⟩
  · exact .inl rfl

/-- What opens has the main header of its leading bytes, and they hold the directory. -/
theorem decodeLeading_of_verdict (hopen : verdict maxSections bs = .ok (h, headers)) :
    MainHeader.decodeLeading bs = .ok h ∧ h.coversDirectory bs.length = true := by
  cases hdecode : MainHeader.decode bs with
  | error e =>
    rw [verdict_of_error hdecode] at hopen
    cases hopen
  | ok r =>
    obtain ⟨h', rest⟩ := r
    rw [verdict_of_ok hdecode] at hopen
    split_ifs at hopen with hcapacity hcovers
    cases hsum : h'.verifyChecksum (directory bs) with
    | error e =>
      rw [hsum] at hopen
      cases hopen
    | ok u =>
      simp only [hsum] at hopen
      split at hopen
      · cases hopen
      · cases hopen
        rw [MainHeader.decodeLeading_of_ok hdecode, if_pos hcovers, hsum]
        exact ⟨rfl, hcovers⟩

/-- A complaint about leading bytes is the complaint about the container, but that too many sections
are complained of before a checksum is. -/
theorem verdict_of_decodeLeading_error (hleading : MainHeader.decodeLeading bs = .error e) :
    verdict maxSections bs = .error e ∧ e.code ≠ .checksum ∨
      ∃ h rest actual, MainHeader.decode bs = .ok (h, rest) ∧
        e = .checksum .mainHeader h.checksum actual ∧
        verdict maxSections bs = .error
          (if maxSections < h.sectionCount then .capacity h.sectionCount.toNat maxSections
          else e) := by
  cases hdecode : MainHeader.decode bs with
  | error e' =>
    rw [MainHeader.decodeLeading_of_error hdecode] at hleading
    cases hleading
    refine .inl ⟨verdict_of_error hdecode maxSections, ?_⟩
    rw [MainHeader.decode_eq] at hdecode
    split_ifs at hdecode
    all_goals
      cases hdecode
      intro hcode
      cases hcode
  | ok r =>
    obtain ⟨h, rest⟩ := r
    rw [MainHeader.decodeLeading_of_ok hdecode] at hleading
    split_ifs at hleading with hcovers
    rcases verifyChecksum_cases h (directory bs) with hsum | ⟨actual, hsum⟩
    · rw [hsum] at hleading
      cases hleading
    · rw [hsum] at hleading
      cases hleading
      refine .inr ⟨h, rest, actual, rfl, rfl, ?_⟩
      rw [verdict_of_ok hdecode, if_pos hcovers, hsum]
      split <;> rfl

/-- A main header was read, and the checksum is right if it was verified. -/
theorem decode_of_decodeLeading (hleading : MainHeader.decodeLeading bs = .ok h) :
    ∃ rest, MainHeader.decode bs = .ok (h, rest) ∧
      (h.coversDirectory bs.length = true → h.verifyChecksum (directory bs) = .ok ()) := by
  cases hdecode : MainHeader.decode bs with
  | error e =>
    rw [MainHeader.decodeLeading_of_error hdecode] at hleading
    cases hleading
  | ok r =>
    obtain ⟨h', rest⟩ := r
    rw [MainHeader.decodeLeading_of_ok hdecode] at hleading
    split_ifs at hleading with hcovers
    · rcases verifyChecksum_cases h' (directory bs) with hsum | ⟨actual, hsum⟩
      · rw [hsum] at hleading
        cases hleading
        exact ⟨rest, rfl, fun _ => hsum⟩
      · rw [hsum] at hleading
        cases hleading
    · cases hleading
      exact ⟨rest, rfl, fun h => absurd h hcovers⟩

/-- Leading bytes that hold the directory leave only the count and the sections to complain of. -/
theorem verdict_of_covered (hleading : MainHeader.decodeLeading bs = .ok h)
    (hcovers : h.coversDirectory bs.length = true) (hopen : verdict maxSections bs = .error e) :
    maxSections < h.sectionCount ∧ e = .capacity h.sectionCount.toNat maxSections ∨
      ∃ index s, (directory bs)[index]? = some s ∧ Directory.Objection h.fileSize index s e := by
  obtain ⟨rest, hdecode, hsum⟩ := decode_of_decodeLeading hleading
  rw [verdict_of_ok hdecode] at hopen
  by_cases hcapacity : maxSections < h.sectionCount
  · rw [if_pos hcapacity] at hopen
    cases hopen
    exact .inl ⟨hcapacity, rfl⟩
  · rw [if_neg hcapacity, if_pos hcovers, hsum hcovers] at hopen
    cases hfirst : (directory bs).zipIdx.findSome? fun p => refusal? h.fileSize p.2 p.1 with
    | none =>
      simp only [hfirst, reduceCtorEq] at hopen
    | some e' =>
      simp only [hfirst, Except.error.injEq] at hopen
      subst hopen
      obtain ⟨⟨s, index⟩, hin, hrefusal⟩ := List.exists_of_findSome?_eq_some hfirst
      refine .inr ⟨index, s, List.mk_mem_zipIdx_iff_getElem?.1 hin, ?_⟩
      rcases Directory.refusal?_cases h.fileSize index s with ⟨hnone, -⟩ | ⟨e, hsome, hobjection⟩
      · rw [hnone] at hrefusal
        cases hrefusal
      · rw [hsome] at hrefusal
        cases hrefusal
        exact hobjection

/-- Leading bytes that do not hold it are no whole container. -/
theorem verdict_of_uncovered (hleading : MainHeader.decodeLeading bs = .ok h)
    (hcovers : h.coversDirectory bs.length = false) :
    verdict maxSections bs = .error
      (if maxSections < h.sectionCount then .capacity h.sectionCount.toNat maxSections
      else .io .shortRead) := by
  obtain ⟨rest, hdecode, -⟩ := decode_of_decodeLeading hleading
  have hnot : ¬ h.coversDirectory bs.length = true := by
    rw [hcovers]
    decide
  rw [verdict_of_ok hdecode, if_neg hnot]
  split <;> rfl

end Opening

/-- The main header of leading bytes agrees with the opened container. What opens has the header its
leading bytes tell, with the checksum verified; a complaint of the leading bytes is one of the
container, but that a count above the limit is complained of before a checksum is; and if the bytes
raise none, then what remains to complain of are the count and single sections where the bytes hold
the directory, and the count and the missing bytes where they do not. The slice that holds the
directory is within the bytes whenever it is taken. -/
theorem MainHeader.decodeLeading_agrees_with_opening (maxSections : UInt32) (bs : Bytes)
    (position : Nat) :
    let opened := answer (Container.ofStorage maxSections { content := bs, position })
    (∀ c, opened = .ok c →
      decodeLeading bs = .ok c.header ∧ c.header.coversDirectory bs.length = true) ∧
    (∀ e, decodeLeading bs = .error e → e.code ≠ .checksum → opened = .error e) ∧
    (∀ site expected actual, decodeLeading bs = .error (.checksum site expected actual) →
      ∃ h rest, decode bs = .ok (h, rest) ∧ opened = .error
        (if maxSections < h.sectionCount then .capacity h.sectionCount.toNat maxSections
        else .checksum site expected actual)) ∧
    (∀ h e, decodeLeading bs = .ok h → h.coversDirectory bs.length = true → opened = .error e →
      maxSections < h.sectionCount ∧ e = .capacity h.sectionCount.toNat maxSections ∨
        ∃ index s, (Opening.directory bs)[index]? = some s ∧
          Directory.Objection h.fileSize index s e) ∧
    (∀ h, decodeLeading bs = .ok h → h.coversDirectory bs.length = false → opened = .error
      (if maxSections < h.sectionCount then .capacity h.sectionCount.toNat maxSections
      else .io .shortRead)) ∧
    decodeBySlice bs = some (decodeLeading bs) := by
  intro opened
  refine ⟨?_, ?_, ?_, ?_, ?_, decodeBySlice_eq bs⟩
  · intro c hopen
    obtain ⟨headers, hverdict⟩ := Container.verdict_of_answer_ofStorage hopen
    exact Opening.decodeLeading_of_verdict hverdict
  · intro e hleading hcode
    rcases Opening.verdict_of_decodeLeading_error hleading with
      ⟨hverdict, -⟩ | ⟨h, rest, sum, -, rfl, -⟩
    · exact Container.answer_ofStorage_eq_error_iff.2 hverdict
    · exact absurd rfl hcode
  · intro site expected actual hleading
    rcases Opening.verdict_of_decodeLeading_error hleading with
      ⟨-, hcode⟩ | ⟨h, rest, sum, hdecode, -, hverdict⟩
    · exact absurd rfl hcode
    · exact ⟨h, rest, hdecode, Container.answer_ofStorage_eq_error_iff.2 hverdict⟩
  · intro h e hleading hcovers hopen
    exact Opening.verdict_of_covered hleading hcovers
      (Container.answer_ofStorage_eq_error_iff.1 hopen)
  · intro h hleading hcovers
    exact Container.answer_ofStorage_eq_error_iff.2 (Opening.verdict_of_uncovered hleading hcovers)

/-- For one, a container of one section: whole, of a version that is not known, with another type of
the section, opened with no section allowed, and cut behind its main header. -/
theorem MainHeader.decodeLeading_agrees_with_opening_of_one_section :
    let h : MainHeader :=
      { signature := magic, ty := 0, checksum := 0x4fac01a4, fileSize := 66, sectionCount := 1
        version := 1, typeExt := .ofBytes 16 [] }
    let s : SectionHeader :=
      { pointer := 64, csize := 2, size := 2, checksum := 0x16000f, ty := 5, flags := 8 }
    let opened (maxSections : UInt32) (bs : Bytes) :=
      answer (Container.ofStorage maxSections { content := bs, position := 7 })
    let whole := h.encode ++ s.encode
    (∃ c, opened 1 whole = .ok c ∧ decodeLeading whole = .ok c.header ∧
      c.header.coversDirectory whole.length = true) ∧
    (decodeLeading (whole.set 20 9) = .error (.badVersion 9) ∧
      opened 1 (whole.set 20 9) = .error (.badVersion 9)) ∧
    (∃ actual, decodeLeading (whole.set 60 6) =
        .error (.checksum .mainHeader 0x4fac01a4 actual) ∧
      ∃ h rest, decode (whole.set 60 6) = .ok (h, rest) ∧ opened 1 (whole.set 60 6) = .error
        (if 1 < h.sectionCount then .capacity h.sectionCount.toNat 1
        else .checksum .mainHeader 0x4fac01a4 actual)) ∧
    (∃ e, opened 0 whole = .error e ∧
      (0 < h.sectionCount ∧ e = .capacity h.sectionCount.toNat 0 ∨
        ∃ index s, (Opening.directory whole)[index]? = some s ∧
          Directory.Objection h.fileSize index s e)) ∧
    (decodeLeading h.encode = .ok h ∧ opened 1 h.encode = .error
      (if 1 < h.sectionCount then .capacity h.sectionCount.toNat 1 else .io .shortRead)) ∧
    decodeBySlice whole = some (decodeLeading whole) := by
  intro h s opened whole
  have hverdict : Opening.verdict 1 whole = .ok (h, [s]) := by decide +kernel
  have hopen : opened 1 whole =
      .ok (Opening.opened 1 { content := whole, position := whole.length } h [s]) := by
    simp only [opened, Container.ofStorage_of_readable (s := { content := whole, position := 7 })
      rfl rfl, hverdict, answer]
  have hnone : opened 0 whole = .error (.capacity 1 0) :=
    Container.answer_ofStorage_eq_error_iff.2 (by decide +kernel)
  have hwhole : decodeLeading whole = .ok h := by decide +kernel
  have hversion : decodeLeading (whole.set 20 9) = .error (.badVersion 9) := by decide +kernel
  have hchanged : decodeLeading (whole.set 60 6) =
      .error (.checksum .mainHeader 0x4fac01a4 0x4fb001a5) := by decide +kernel
  have hcut : decodeLeading h.encode = .ok h := by decide +kernel
  refine ⟨⟨_, hopen, ?_⟩, ⟨hversion, ?_⟩, ⟨_, hchanged, ?_⟩, ⟨_, hnone, ?_⟩, ⟨hcut, ?_⟩, ?_⟩
  · exact (decodeLeading_agrees_with_opening 1 whole 7).1 _ hopen
  · exact (decodeLeading_agrees_with_opening 1 _ 7).2.1 _ hversion (by decide)
  · exact (decodeLeading_agrees_with_opening 1 _ 7).2.2.1 _ _ _ hchanged
  · exact (decodeLeading_agrees_with_opening 0 whole 7).2.2.2.1 h _ hwhole rfl hnone
  · exact (decodeLeading_agrees_with_opening 1 _ 7).2.2.2.2.1 h hcut rfl
  · exact (decodeLeading_agrees_with_opening 1 whole 7).2.2.2.2.2

end SectionArchive
