import Mathlib
import SectionArchive.Proofs.ChecksumChanges
import SectionArchive.Proofs.Opening
/-!
One flipped bit in the main header or in the directory. The bytes under the checksum are those of
the storage, but for the checksum itself and the reserved pair of each section header; so a byte
that changed there changes the checksum. The signature and the version are looked at before: no flip
makes one known version of the other, which would select another checksum.
-/

namespace SectionArchive

namespace Bytes

def flipBit (bs : Bytes) (j : Nat) (bit : Fin 8) : Bytes :=
  bs.modify j fun b => b ^^^ (1 <<< UInt8.ofNat bit)

theorem length_flipBit (bs : Bytes) (j : Nat) (bit : Fin 8) :
    (bs.flipBit j bit).length = bs.length := List.length_modify _ _ _

/-- A flipped bit puts another byte in the place of one. -/
theorem flipBit_eq_set {bs : Bytes} {j : Nat} (hj : j < bs.length) (bit : Fin 8) :
    ∃ x, bs[j] ≠ x ∧ bs.flipBit j bit = bs.set j x := by
  refine ⟨bs[j] ^^^ (1 <<< UInt8.ofNat bit), ?_, ?_⟩
  · intro h
    have hbit : ∀ k : Fin 8, (1 <<< UInt8.ofNat k : UInt8) ≠ 0 := by decide
    apply hbit bit
    rw [← UInt8.xor_right_inj bs[j], UInt8.xor_zero]
    exact h.symm
  · exact List.modify_eq_set_get _ hj

end Bytes

namespace LittleEndian

theorem decode_lt (bs : Bytes) : decode bs < 256 ^ bs.length := by
  induction bs with
  | nil => exact Nat.one_pos
  | cons b rest ih =>
    have hb := b.toNat_lt
    rw [decode, List.length_cons, Nat.pow_succ]
    omega

theorem decode_inj {a b : Bytes} (hlength : a.length = b.length) (h : decode a = decode b) :
    a = b := by
  rw [← encode_decode a, ← encode_decode b, h, hlength]

end LittleEndian

/-! ### Fields of bytes of which one was replaced -/

namespace SectionHeader

variable {bs : Bytes} {j offset w : Nat} {x : UInt8}

theorem field_lt (bs : Bytes) (offset w : Nat) : field bs offset w < 256 ^ w := by
  refine Nat.lt_of_lt_of_le (LittleEndian.decode_lt _) (Nat.pow_le_pow_right (by decide) ?_)
  exact List.length_take_le ..

theorem encode_field (h : offset + w ≤ bs.length) :
    LittleEndian.encode w (field bs offset w) = (bs.drop offset).take w := by
  have hlength : ((bs.drop offset).take w).length = w := by
    rw [List.length_take, List.length_drop]
    omega
  rw [field]
  conv => lhs; arg 1; rw [← hlength]
  exact LittleEndian.encode_decode _

theorem drop_take_set (h : j < offset ∨ offset + w ≤ j) :
    ((bs.set j x).drop offset).take w = (bs.drop offset).take w := by
  rcases h with h | h
  · rw [List.drop_set_of_lt h]
  · rw [List.drop_set, if_neg (by omega), List.take_set_of_le (by omega)]

/-- A field changes only with its own bytes. -/
theorem field_set (h : j < offset ∨ offset + w ≤ j) :
    field (bs.set j x) offset w = field bs offset w := by
  rw [field, drop_take_set h, field]

theorem field_set_ne (hj : j < bs.length) (hx : bs[j] ≠ x) (hoffset : offset ≤ j)
    (hw : j < offset + w) : field (bs.set j x) offset w ≠ field bs offset w := by
  intro h
  have hsame := LittleEndian.decode_inj (by simp only [List.length_take, List.length_drop,
    List.length_set]) h
  have hat := congrArg (·[j - offset]?) hsame
  simp only [List.getElem?_take, List.getElem?_drop, Nat.add_sub_cancel' hoffset,
    List.getElem?_set_self hj, List.getElem?_eq_getElem hj] at hat
  rw [if_pos (by omega), if_pos (by omega), Option.some.injEq] at hat
  exact hx hat.symm

theorem toNat_ofNat_field (bs : Bytes) (offset : Nat) :
    (UInt32.ofNat (field bs offset 4)).toNat = field bs offset 4 := by
  rw [UInt32.toNat_ofNat']
  exact Nat.mod_eq_of_lt (field_lt bs offset 4)

theorem toNat_ofNat_field_eight (bs : Bytes) (offset : Nat) :
    (UInt64.ofNat (field bs offset 8)).toNat = field bs offset 8 := by
  rw [UInt64.toNat_ofNat']
  exact Nat.mod_eq_of_lt (field_lt bs offset 8)

/-- One byte is a field. -/
theorem singleton_field (h : offset + 1 ≤ bs.length) :
    [UInt8.ofNat (field bs offset 1)] = (bs.drop offset).take 1 := by
  rw [← encode_field h]
  rfl

/-- Encoding what was decoded gives the bytes again, with the reserved pair zeroed. -/
theorem encode_ofBlock {block : Bytes} (h : width ≤ block.length) :
    (ofBlock block).encode = block.take 22 ++ [0, 0] := by
  simp only [width] at h
  have hpair : ∀ a b : UInt8, [a, b] = [a] ++ [b] := fun _ _ => rfl
  have hsplit : block.take 22 = (block.drop 0).take 8 ++ ((block.drop 8).take 4 ++
      ((block.drop 12).take 4 ++ ((block.drop 16).take 4 ++ ((block.drop 20).take 1 ++
        (block.drop 21).take 1)))) := by
    rw [show 22 = 8 + (4 + (4 + (4 + (1 + 1)))) from rfl]
    simp only [List.take_add, List.drop_drop, List.drop_zero]
  simp only [encode, ofBlock, toNat_ofNat_field, toNat_ofNat_field_eight, hpair (UInt8.ofNat _)]
  simp (disch := omega) only [encode_field, singleton_field]
  rw [hsplit]
  simp only [List.append_assoc]

def blanked (bs : Bytes) : Bytes := bs.mapIdx fun p b => if 22 ≤ p % width then 0 else b

theorem blanked_append {front : Bytes} (hfront : front.length = width) (rest : Bytes) :
    blanked (front ++ rest) = blanked front ++ blanked rest := by
  simp only [blanked, List.mapIdx_append, hfront, Nat.add_mod_right]

theorem blanked_block {bs : Bytes} (h : width ≤ bs.length) :
    blanked (bs.take width) = bs.take 22 ++ [0, 0] := by
  simp only [width] at h
  have hpair : bs.take width = bs.take 22 ++ [bs[22], bs[23]] := by
    rw [width, ← List.take_append_getElem (show 23 < bs.length by omega),
      ← List.take_append_getElem (show 22 < bs.length by omega), List.append_assoc]
    rfl
  have hlength : (bs.take 22).length = 22 := by
    rw [List.length_take]
    omega
  have hkeep : blanked (bs.take 22) = bs.take 22 := by
    refine List.mapIdx_eq_iff.2 fun p => ?_
    by_cases hp : p < 22
    · have hfree : ¬ 22 ≤ p % width := by
        rw [width]
        omega
      simp only [hfree, if_false, Option.map_id']
    · rw [List.getElem?_eq_none (by omega)]
      rfl
  rw [hpair, blanked, List.mapIdx_append, hlength, ← blanked, hkeep]
  rfl

/-- A whole directory is encoded to its own bytes, the reserved pairs zeroed. -/
theorem encode_firstOf (n : Nat) (hlong : 24 * n ≤ bs.length) :
    (firstOf n bs).flatMap encode = blanked (bs.take (24 * n)) := by
  induction n generalizing bs with
  | zero => rfl
  | succ n ih =>
    have hwidth : width ≤ bs.length := by
      rw [width]
      omega
    have hrest := @ih (bs.drop width) (by rw [List.length_drop, width]; omega)
    have hsplit : bs.take (24 * (n + 1)) = bs.take width ++ (bs.drop width).take (24 * n) := by
      rw [Nat.mul_succ, Nat.add_comm, List.take_add]
      rfl
    have hfirst : (bs.take width).length = width := by
      rw [List.length_take, Nat.min_eq_left hwidth]
    rw [firstOf_succ, List.flatMap_cons, encode_ofBlock hwidth, hrest, hsplit,
      blanked_append hfirst, blanked_block hwidth]

/-- So a byte that is replaced outside the reserved pairs is replaced in the encoded directory. -/
theorem encode_firstOf_set (n : Nat) (hlong : 24 * n ≤ bs.length) (hreserved : j % 24 < 22) :
    (firstOf n (bs.set j x)).flatMap encode = ((firstOf n bs).flatMap encode).set j x := by
  have hfree : ¬ 22 ≤ j % width := Nat.not_le.2 hreserved
  rw [encode_firstOf n hlong, encode_firstOf n (by rw [List.length_set]; exact hlong),
    List.take_set, blanked, List.mapIdx_set, if_neg hfree, ← blanked]

end SectionHeader

/-! ### What the checksum covers -/

namespace Opening

variable {bs : Bytes} {j : Nat} {x : UInt8} {maxSections : UInt32}

def covered (bs : Bytes) : Bytes :=
  { MainHeader.stored bs with checksum := 0 }.encode ++
    (directory bs).flatMap SectionHeader.encode

theorem recomputed_eq (bs : Bytes) :
    recomputed bs = Checksum.checksum (if (MainHeader.stored bs).version = 1 then .weak else .crc32)
      (covered bs) := rfl

theorem length_covered (bs : Bytes) :
    (covered bs).length = 40 + 24 * (MainHeader.stored bs).sectionCount.toNat := by
  rw [covered, List.length_append, MainHeader.length_encode, MainHeader.width,
    SectionHeader.length_flatMap_encode, length_directory]

/-- The main header is encoded to its own bytes, but for the checksum it is given. -/
theorem encode_stored (hmagic : bs.take 3 = [0x42, 0x50, 0x58]) (hlong : 40 ≤ bs.length)
    (sum : UInt32) :
    { MainHeader.stored bs with checksum := sum }.encode =
      bs.take 4 ++ (LittleEndian.encode 4 sum.toNat ++ (bs.drop 8).take 32) := by
  have hfirst : bs.take 4 = bs.take 3 ++ (bs.drop 3).take 1 := by
    rw [show 4 = 3 + 1 from rfl, List.take_add]
  have hrest : (bs.drop 8).take 32 = (bs.drop 8).take 8 ++ ((bs.drop 16).take 4 ++
      ((bs.drop 20).take 4 ++ (bs.drop 24).take 16)) := by
    rw [show 32 = 8 + (4 + (4 + 16)) from rfl]
    simp only [List.take_add, List.drop_drop]
  have htype : (FixedBytes.ofBytes 16 ((bs.drop 24).take 16)).val = (bs.drop 24).take 16 := by
    apply FixedBytes.val_ofBytes
    rw [List.length_take, List.length_drop]
    omega
  have hletters : MainHeader.magic.val = bs.take 3 := hmagic.symm
  simp only [MainHeader.encode, MainHeader.stored, SectionHeader.toNat_ofNat_field,
    SectionHeader.toNat_ofNat_field_eight, htype, hletters]
  simp (disch := omega) only [SectionHeader.encode_field, SectionHeader.singleton_field]
  rw [hfirst, hrest]
  simp only [List.append_assoc]

theorem directory_set (hj : j < 16 ∨ 20 ≤ j) (hj' : j < 40) :
    directory (bs.set j x) = directory bs := by
  have hcount : SectionHeader.field (bs.set j x) 16 4 = SectionHeader.field bs 16 4 :=
    SectionHeader.field_set (by omega)
  simp only [directory, MainHeader.stored, hcount, List.drop_set, if_pos hj']

theorem stored_set (hj : 40 ≤ j) : MainHeader.stored (bs.set j x) = MainHeader.stored bs := by
  simp (disch := omega) only [MainHeader.stored, SectionHeader.field_set,
    SectionHeader.drop_take_set]

/-- A byte under the checksum is replaced there as it is on storage. -/
theorem covered_set (hmagic : bs.take 3 = [0x42, 0x50, 0x58])
    (hlong : 40 + 24 * (MainHeader.stored bs).sectionCount.toNat ≤ bs.length)
    (hj : j = 3 ∨ 8 ≤ j ∧ j < 16 ∨ 20 ≤ j ∧ j < 40 ∨
      40 ≤ j ∧ j < 40 + 24 * (MainHeader.stored bs).sectionCount.toNat ∧ (j - 40) % 24 < 22) :
    covered (bs.set j x) = (covered bs).set j x := by
  have hlength : ({ MainHeader.stored bs with checksum := 0 } : MainHeader).encode.length = 40 :=
    MainHeader.length_encode _
  rw [covered, covered, List.set_append, hlength]
  by_cases hheader : j < 40
  · have hmagic' : (bs.set j x).take 3 = [0x42, 0x50, 0x58] := by
      rw [List.take_set_of_le (by omega), hmagic]
    rw [if_pos hheader, directory_set (by omega) hheader, encode_stored hmagic (by omega),
      encode_stored hmagic' (by rw [List.length_set]; omega)]
    congr 1
    have hfour : (bs.take 4).length = 4 := by
      rw [List.length_take]
      omega
    have hzeros : (LittleEndian.encode 4 (0 : UInt32).toNat).length = 4 := rfl
    rw [List.take_set, List.drop_set, List.set_append, hfour, List.set_append, hzeros]
    by_cases hthree : j < 4
    · rw [if_pos (by omega), if_pos hthree]
    · have hfour' : (bs.take 4).set j x = bs.take 4 := by
        rw [List.set_eq_of_length_le]
        omega
      rw [if_neg (by omega), if_neg hthree, if_neg (by omega), hfour', List.take_set,
        Nat.sub_sub]
  · have hentries : (bs.set j x).drop 40 = (bs.drop 40).set (j - 40) x := by
      rw [List.drop_set, if_neg hheader]
    rw [if_neg hheader, stored_set (by omega), directory, directory, stored_set (by omega),
      hentries, SectionHeader.encode_firstOf_set _ (by rw [List.length_drop]; omega) (by omega)]

/-- The checksum is not under itself. -/
theorem covered_set_checksum (hj : 4 ≤ j) (hj' : j < 8) : covered (bs.set j x) = covered bs := by
  rw [covered, covered, directory_set (by omega) (by omega)]
  simp (disch := omega) only [MainHeader.stored, SectionHeader.field_set,
    SectionHeader.drop_take_set]

theorem version_set (hj : j < 20 ∨ 24 ≤ j) :
    (MainHeader.stored (bs.set j x)).version = (MainHeader.stored bs).version := by
  simp (disch := omega) only [MainHeader.stored, SectionHeader.field_set]

theorem sectionCount_set (hj : j < 16 ∨ 20 ≤ j) :
    (MainHeader.stored (bs.set j x)).sectionCount = (MainHeader.stored bs).sectionCount := by
  simp (disch := omega) only [MainHeader.stored, SectionHeader.field_set]

theorem checksum_set (hj : j < 4 ∨ 8 ≤ j) :
    (MainHeader.stored (bs.set j x)).checksum = (MainHeader.stored bs).checksum := by
  simp (disch := omega) only [MainHeader.stored, SectionHeader.field_set]

/-- No known version is one bit from another. -/
theorem version_flipBit (hlong : 24 ≤ bs.length)
    (hknown : (MainHeader.stored bs).version = 1 ∨ (MainHeader.stored bs).version = 2)
    (hj : 20 ≤ j) (hj' : j < 24) (bit : Fin 8) :
    (MainHeader.stored (bs.flipBit j bit)).version ≠ 1 ∧
      (MainHeader.stored (bs.flipBit j bit)).version ≠ 2 := by
  have hbytes : (bs.drop 20).take 4 =
      LittleEndian.encode 4 (MainHeader.stored bs).version.toNat := by
    rw [MainHeader.stored, SectionHeader.toNat_ofNat_field,
      SectionHeader.encode_field (by omega)]
  have hflipped : ((bs.flipBit j bit).drop 20).take 4 =
      Bytes.flipBit ((bs.drop 20).take 4) (j - 20) bit := by
    rw [Bytes.flipBit, Bytes.flipBit, List.drop_modify_of_ge _ _ _ _ hj, List.take_modify]
  have hall : ∀ (i : Fin 4) (k : Fin 8), ∀ v ∈ [1, 2],
      UInt32.ofNat (LittleEndian.decode (Bytes.flipBit (LittleEndian.encode 4 v) i k)) ≠ 1 ∧
        UInt32.ofNat (LittleEndian.decode (Bytes.flipBit (LittleEndian.encode 4 v) i k)) ≠ 2 := by
    decide
  have hversion : (MainHeader.stored (bs.flipBit j bit)).version =
      UInt32.ofNat (LittleEndian.decode (Bytes.flipBit
        (LittleEndian.encode 4 (MainHeader.stored bs).version.toNat) (j - 20) bit)) := by
    rw [← hbytes, ← hflipped]
    rfl
  rw [hversion]
  apply hall ⟨j - 20, by omega⟩ bit
  rcases hknown with h | h
  · rw [h]
    decide
  · rw [h]
    decide

/-! ### The verdict on a flipped bit -/

/-- A byte of the main header or of the directory, but not of the count or of a reserved pair. -/
def Protected (count j : Nat) : Prop :=
  j < 16 ∨ 20 ≤ j ∧ j < 40 ∨ 40 ≤ j ∧ j < 40 + 24 * count ∧ (j - 40) % 24 < 22

inductive HeaderComplaint : Error → Prop
  | signature (letters : Bytes) : HeaderComplaint (.badSignature letters)
  | version (v : UInt32) : HeaderComplaint (.badVersion v)
  | checksum {expected actual : UInt32} (h : expected ≠ actual) :
      HeaderComplaint (.checksum .mainHeader expected actual)

/-- Bytes that differ under the checksum, or in it, are refused for their checksum. -/
theorem verdict_of_mismatch (hmagic : bs.take 3 = [0x42, 0x50, 0x58])
    (hknown : ¬ ((MainHeader.stored bs).version ≠ 1 ∧ (MainHeader.stored bs).version ≠ 2))
    (hallowed : ¬ maxSections < (MainHeader.stored bs).sectionCount)
    (hlong : 40 + 24 * (MainHeader.stored bs).sectionCount.toNat ≤ bs.length)
    (hsum : recomputed bs ≠ (MainHeader.stored bs).checksum) :
    verdict maxSections bs =
      .error (.checksum .mainHeader (MainHeader.stored bs).checksum (recomputed bs)) := by
  rw [verdict, if_neg (by omega), if_neg (not_not.2 hmagic), if_neg (by omega), if_neg hknown,
    if_neg (by omega), if_neg hallowed, if_neg (by omega), if_pos hsum]

/-- Another byte under the checksum gives another checksum. -/
theorem recomputed_set_ne (hmagic : bs.take 3 = [0x42, 0x50, 0x58])
    (hlong : 40 + 24 * (MainHeader.stored bs).sectionCount.toNat ≤ bs.length)
    (hj : j = 3 ∨ 8 ≤ j ∧ j < 16 ∨ 24 ≤ j ∧ j < 40 ∨
      40 ≤ j ∧ j < 40 + 24 * (MainHeader.stored bs).sectionCount.toNat ∧ (j - 40) % 24 < 22)
    (hlength : j < bs.length) (hx : bs[j] ≠ x) : recomputed (bs.set j x) ≠ recomputed bs := by
  have hcovered : ∀ y, covered (bs.set j y) = (covered bs).set j y :=
    fun y => covered_set hmagic hlong (by omega)
  have hin : j < (covered bs).length := by
    rw [length_covered]
    omega
  have hat : (covered bs)[j] = bs[j] := by
    have hsame := hcovered bs[j]
    rw [List.set_getElem_self] at hsame
    have hget := congrArg (·[j]?) hsame
    simp only [List.getElem?_set_self hin, List.getElem?_eq_getElem hin, Option.some.injEq] at hget
    exact hget
  rw [recomputed_eq, recomputed_eq, hcovered, version_set (by omega)]
  apply Checksum.checksum_set_ne _ hin
  · rw [hat]
    exact hx
  · split <;> simp

/-- Another byte in the signature makes it a foreign one. -/
theorem take_three_set_ne (hmagic : bs.take 3 = [0x42, 0x50, 0x58]) (hj : j < 3)
    (hlength : j < bs.length) (hx : bs[j] ≠ x) : (bs.set j x).take 3 ≠ [0x42, 0x50, 0x58] := by
  intro hsame
  rw [List.take_set, ← hmagic] at hsame
  have hin : j < (bs.take 3).length := by
    rw [List.length_take]
    omega
  have hget := congrArg (·[j]?) hsame
  simp only [List.getElem?_set_self hin, List.getElem?_eq_getElem hin, Option.some.injEq,
    List.getElem_take] at hget
  exact hx hget.symm

/-- Another byte in the checksum, or under it, makes them differ. -/
theorem mismatch_set (h : Accepted maxSections bs)
    (hj : Protected (MainHeader.stored bs).sectionCount.toNat j) (hletters : ¬ j < 3)
    (hversion : ¬ (20 ≤ j ∧ j < 24)) (hlength : j < bs.length) (hx : bs[j] ≠ x) :
    recomputed (bs.set j x) ≠ (MainHeader.stored (bs.set j x)).checksum := by
  by_cases hchecksum : 4 ≤ j ∧ j < 8
  · have hsame : recomputed (bs.set j x) = recomputed bs := by
      rw [recomputed_eq, recomputed_eq, covered_set_checksum hchecksum.1 hchecksum.2,
        version_set (by omega)]
    rw [hsame, h.sum]
    intro heq
    apply SectionHeader.field_set_ne hlength hx hchecksum.1 (show j < 4 + 4 from hchecksum.2)
    rw [← SectionHeader.toNat_ofNat_field, ← SectionHeader.toNat_ofNat_field bs]
    exact congrArg UInt32.toNat heq.symm
  · rw [checksum_set (by omega), ← h.sum]
    apply recomputed_set_ne h.magic h.long _ hlength hx
    rcases hj with hj | hj | hj <;> omega

/-- Of bytes that are accepted no bit under the checksum, and none of the checksum, can be flipped
without being noticed. -/
theorem verdict_flipBit (h : Accepted maxSections bs)
    (hj : Protected (MainHeader.stored bs).sectionCount.toNat j) (bit : Fin 8) :
    ∃ e, verdict maxSections (bs.flipBit j bit) = .error e ∧ HeaderComplaint e := by
  have hlong := h.long
  have hlength : j < bs.length := by
    rcases hj with hj | hj | hj <;> omega
  have hlengths := Bytes.length_flipBit bs j bit
  obtain ⟨x, hx, hset⟩ := Bytes.flipBit_eq_set hlength bit
  by_cases hletters : j < 3
  · have hforeign := take_three_set_ne h.magic hletters hlength hx
    rw [← hset] at hforeign
    refine ⟨_, ?_, .signature ((bs.flipBit j bit).take 3)⟩
    rw [verdict, if_neg (by omega), if_pos hforeign]
  have hmagic : (bs.flipBit j bit).take 3 = [0x42, 0x50, 0x58] := by
    rw [hset, List.take_set_of_le (by omega), h.magic]
  by_cases hversion : 20 ≤ j ∧ j < 24
  · have hknown : (MainHeader.stored bs).version = 1 ∨ (MainHeader.stored bs).version = 2 := by
      simpa only [ne_eq, not_and_or, not_not] using h.known
    have hunknown := @version_flipBit bs j (by omega) hknown hversion.1 hversion.2 bit
    refine ⟨_, ?_, .version (MainHeader.stored (bs.flipBit j bit)).version⟩
    rw [verdict, if_neg (by omega), if_neg (not_not.2 hmagic), if_neg (by omega), if_pos hunknown]
  -- what is looked at before the checksum is as it was
  have hcount : (MainHeader.stored (bs.flipBit j bit)).sectionCount =
      (MainHeader.stored bs).sectionCount := by
    rw [hset, sectionCount_set]
    rcases hj with hj | hj | hj <;> omega
  have hsame : (MainHeader.stored (bs.flipBit j bit)).version = (MainHeader.stored bs).version := by
    rw [hset, version_set (by omega)]
  have hmismatch := mismatch_set h hj hletters hversion hlength hx
  rw [← hset] at hmismatch
  refine ⟨_, verdict_of_mismatch hmagic ?_ ?_ ?_ hmismatch, .checksum hmismatch.symm⟩
  · rw [hsame]
    exact h.known
  · rw [hcount]
    exact h.allowed
  · rw [hcount, hlengths]
    exact hlong

end Opening

end SectionArchive
