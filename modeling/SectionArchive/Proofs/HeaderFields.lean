import Mathlib
import SectionArchive.Directory
import SectionArchive.Proofs.Numbers
/-!
Headers as fields at fixed offsets. Decoding says which bytes make which field and, for input that
is too short or foreign, which complaint comes first; encoding puts the fields back, and both
checksums over headers are checksums of the bytes in one piece.
-/

namespace SectionArchive

namespace SectionHeader

theorem field_take {bs : Bytes} {n offset w : Nat} (h : offset + w ≤ n) :
    field (bs.take n) offset w = field bs offset w := by
  rw [field, List.drop_take, List.take_take, Nat.min_eq_left (by omega), field]

theorem ofBlock_take (bs : Bytes) : ofBlock (bs.take width) = ofBlock bs := by
  simp only [ofBlock, width, field_take (show 0 + 8 ≤ 24 by decide),
    field_take (show 8 + 4 ≤ 24 by decide), field_take (show 12 + 4 ≤ 24 by decide),
    field_take (show 16 + 4 ≤ 24 by decide), field_take (show 20 + 1 ≤ 24 by decide),
    field_take (show 21 + 1 ≤ 24 by decide)]

def nth (bs : Bytes) (i : Nat) : SectionHeader := ofBlock (bs.drop (i * width))

def firstOf (n : Nat) (bs : Bytes) : List SectionHeader := (List.range n).map (nth bs)

theorem decode_of_le {bs : Bytes} (h : width ≤ bs.length) :
    decode bs = .ok (ofBlock bs, bs.drop width) := by
  simp only [decode, Bytes.split?, if_pos h, ofBlock_take]

theorem decode_of_lt {bs : Bytes} (h : bs.length < width) :
    decode bs = .error (.io .shortRead) := by
  simp only [decode, Bytes.split?_eq_none_iff.2 h]

theorem firstOf_succ (n : Nat) (bs : Bytes) :
    firstOf (n + 1) bs = ofBlock bs :: firstOf n (bs.drop width) := by
  rw [firstOf, List.range_succ_eq_map, List.map_cons, List.map_map, nth, Nat.zero_mul,
    List.drop_zero, firstOf]
  congr 1
  apply List.map_congr_left
  intro i _
  rw [Function.comp_apply, nth, nth, List.drop_drop, Nat.succ_mul, Nat.add_comm]

theorem decodeMore_eq (n : Nat) (bs : Bytes) (done : List SectionHeader) :
    decodeMore n bs done =
      if bs.length < n * width then .error (.io .shortRead)
      else .ok (done.reverse ++ firstOf n bs, bs.drop (n * width)) := by
  induction n generalizing bs done with
  | zero => simp [decodeMore, firstOf]
  | succ n ih =>
    by_cases h : bs.length < width
    · have hshort : bs.length < (n + 1) * width := by
        rw [Nat.succ_mul]
        omega
      simp only [decodeMore, decode_of_lt h, if_pos hshort]
    · have hiff : (bs.drop width).length < n * width ↔ bs.length < (n + 1) * width := by
        rw [List.length_drop, Nat.succ_mul]
        omega
      simp only [decodeMore, decode_of_le (Nat.not_lt.1 h), ih, hiff, firstOf_succ, List.drop_drop,
        List.reverse_cons, List.append_assoc, List.singleton_append, Nat.succ_mul,
        Nat.add_comm width]

/-- Reading a directory takes as many whole blocks as there are to be headers. -/
theorem decodeList_eq (n : Nat) (bs : Bytes) :
    decodeList n bs =
      if bs.length < n * width then .error (.io .shortRead)
      else .ok (firstOf n bs, bs.drop (n * width)) := by
  rw [decodeList, decodeMore_eq, List.reverse_nil, List.nil_append]

theorem field_encode (w n : Nat) (rest : Bytes) :
    field (LittleEndian.encode w n ++ rest) 0 w = n % 256 ^ w := by
  rw [field, List.drop_zero, List.take_left' (LittleEndian.length_encode w n),
    LittleEndian.decode_encode]

theorem field_encode_of_le {w offset : Nat} (h : w ≤ offset) (n : Nat) (rest : Bytes) (v : Nat) :
    field (LittleEndian.encode w n ++ rest) offset v = field rest (offset - w) v := by
  rw [field, List.drop_append, LittleEndian.length_encode,
    List.drop_eq_nil_of_le (by simpa using h), List.nil_append, field]

theorem field_cons_zero (b : UInt8) (rest : Bytes) : field (b :: rest) 0 1 = b.toNat := by
  simp [field, LittleEndian.decode]

theorem field_cons_succ (b : UInt8) (rest : Bytes) (offset w : Nat) :
    field (b :: rest) (offset + 1) w = field rest offset w := rfl

/-- A header that was encoded is read back. -/
theorem ofBlock_encode (h : SectionHeader) (rest : Bytes) : ofBlock (h.encode ++ rest) = h := by
  have hpointer : h.pointer.toNat % 256 ^ 8 = h.pointer.toNat := Nat.mod_eq_of_lt h.pointer.toNat_lt
  have hcsize : h.csize.toNat % 256 ^ 4 = h.csize.toNat := Nat.mod_eq_of_lt h.csize.toNat_lt
  have hsize : h.size.toNat % 256 ^ 4 = h.size.toNat := Nat.mod_eq_of_lt h.size.toNat_lt
  have hsum : h.checksum.toNat % 256 ^ 4 = h.checksum.toNat := Nat.mod_eq_of_lt h.checksum.toNat_lt
  simp (disch := decide) only [ofBlock, encode, List.append_assoc, List.cons_append, field_encode,
    field_encode_of_le, Nat.reduceSub, field_cons_zero, field_cons_succ,
    hpointer, hcsize, hsize, hsum, UInt64.ofNat_toNat, UInt32.ofNat_toNat, UInt8.ofNat_toNat]

theorem length_flatMap_encode (headers : List SectionHeader) :
    (headers.flatMap encode).length = 24 * headers.length := by
  induction headers with
  | nil => rfl
  | cons h rest ih =>
    rw [List.flatMap_cons, List.length_append, ih, length_encode, List.length_cons,
      width]
    omega

/-- So is a directory. -/
theorem firstOf_flatMap_encode (headers : List SectionHeader) (rest : Bytes) :
    firstOf headers.length (headers.flatMap encode ++ rest) = headers := by
  induction headers with
  | nil => rfl
  | cons h headers ih =>
    rw [List.length_cons, firstOf_succ, List.flatMap_cons, List.append_assoc, ofBlock_encode,
      List.drop_left' (length_encode h), ih]

end SectionHeader

namespace MainHeader

def stored (bs : Bytes) : MainHeader where
  signature := magic
  ty := UInt8.ofNat (SectionHeader.field bs 3 1)
  checksum := UInt32.ofNat (SectionHeader.field bs 4 4)
  fileSize := UInt64.ofNat (SectionHeader.field bs 8 8)
  sectionCount := UInt32.ofNat (SectionHeader.field bs 16 4)
  version := UInt32.ofNat (SectionHeader.field bs 20 4)
  typeExt := .ofBytes 16 ((bs.drop 24).take 16)

theorem take_bind {α : Type} (n : Nat) (bs : Bytes) (f : Bytes × Bytes → Except Error α) :
    (take n bs >>= f) =
      if bs.length < n then .error (.io .shortRead) else f (bs.take n, bs.drop n) := by
  by_cases h : bs.length < n
  · simp only [take, Bytes.split?_eq_none_iff.2 h, if_pos h]
    rfl
  · simp only [take, Bytes.split?, if_pos (Nat.not_lt.1 h), if_neg h]
    rfl

theorem throw_bind {α β : Type} (e : Error) (f : α → Except Error β) :
    ((throw e : Except Error α) >>= f) = .error e := rfl

/-- Reading a main header, complaint by complaint. -/
theorem decode_eq (bs : Bytes) :
    decode bs =
      if bs.length < 3 then .error (.io .shortRead)
      else if bs.take 3 ≠ magic.val then .error (.badSignature (bs.take 3))
      else if bs.length < 24 then .error (.io .shortRead)
      else if isKnownVersion (stored bs).version = false then
        .error (.badVersion (stored bs).version)
      else if bs.length < 40 then .error (.io .shortRead)
      else .ok (stored bs, bs.drop 40) := by
  have hversion : UInt32.ofNat (LittleEndian.decode ((bs.drop (3 + (1 + (4 + (8 + 4))))).take 4)) =
      (stored bs).version := rfl
  simp only [decode, take_bind, List.length_drop, List.drop_drop, throw_bind, hversion,
    Bool.not_eq_true']
  by_cases h3 : bs.length < 3
  · rw [if_pos h3, if_pos h3]
  by_cases hmagic : bs.take 3 ≠ magic.val
  · rw [if_neg h3, if_pos hmagic, if_neg h3, if_pos hmagic]
  by_cases h24 : bs.length < 24
  · rw [if_neg h3, if_neg hmagic, if_neg h3, if_neg hmagic, if_pos h24]
    split_ifs <;> first | rfl | omega
  · rw [if_neg h3, if_neg hmagic, if_neg h3, if_neg hmagic, if_neg h24, if_neg (by omega),
      if_neg (by omega), if_neg (by omega), if_neg (by omega), if_neg (by omega)]
    by_cases hknown : isKnownVersion (stored bs).version = false
    · rw [if_pos hknown, if_pos hknown]
    rw [if_neg hknown, if_neg hknown]
    by_cases h40 : bs.length < 40
    · rw [if_pos (by omega), if_pos h40]
    · rw [if_neg (by omega), if_neg h40]
      rfl

/-- What was read is what stands in the first 40 bytes. -/
theorem decode_eq_ok_iff {h : MainHeader} {bs rest : Bytes} :
    decode bs = .ok (h, rest) ↔
      bs.take 3 = magic.val ∧ isKnownVersion (stored bs).version = true ∧ 40 ≤ bs.length ∧
        h = stored bs ∧ rest = bs.drop 40 := by
  rw [decode_eq]
  constructor
  · intro hok
    split_ifs at hok with h3 hletters h24 hversion h40
    cases hok
    exact ⟨not_not.1 hletters, by rwa [Bool.not_eq_false] at hversion, Nat.not_lt.1 h40, rfl, rfl⟩
  · rintro ⟨hletters, hversion, h40, rfl, rfl⟩
    rw [if_neg (by omega), if_neg (not_not.2 hletters), if_neg (by omega),
      if_neg (by rw [hversion]; decide), if_neg (by omega)]

/-- A main header that was encoded is read back. -/
theorem stored_encode {h : MainHeader} (hmagic : h.signature = magic) (rest : Bytes) :
    stored (h.encode ++ rest) = h := by
  obtain ⟨signature, ty, checksum, fileSize, sectionCount, version, typeExt⟩ := h
  obtain rfl : signature = magic := hmagic
  have hletters : magic.val = [0x42, 0x50, 0x58] := rfl
  have hsum : checksum.toNat % 256 ^ 4 = checksum.toNat := Nat.mod_eq_of_lt checksum.toNat_lt
  have hfile : fileSize.toNat % 256 ^ 8 = fileSize.toNat := Nat.mod_eq_of_lt fileSize.toNat_lt
  have hcount : sectionCount.toNat % 256 ^ 4 = sectionCount.toNat :=
    Nat.mod_eq_of_lt sectionCount.toNat_lt
  have hversion : version.toNat % 256 ^ 4 = version.toNat := Nat.mod_eq_of_lt version.toNat_lt
  have htype : FixedBytes.ofBytes 16 (((encode ⟨magic, ty, checksum, fileSize, sectionCount,
      version, typeExt⟩ ++ rest).drop 24).take 16) = typeExt := by
    rw [encode, List.append_assoc _ typeExt.val, List.drop_left' (by simp [hletters]),
      List.take_left' typeExt.property]
    exact Subtype.ext (FixedBytes.val_ofBytes typeExt.property)
  rw [stored, htype]
  simp (disch := decide) only [encode, hletters, List.append_assoc, List.cons_append,
    List.nil_append, SectionHeader.field_encode, SectionHeader.field_encode_of_le, Nat.reduceSub,
    SectionHeader.field_cons_zero, SectionHeader.field_cons_succ, hsum, hfile, hcount, hversion,
    UInt64.ofNat_toNat, UInt32.ofNat_toNat, UInt8.ofNat_toNat]

/-- The checksum of a main header is that of its bytes and those of the directory in one piece. -/
theorem computeChecksum_eq (h : MainHeader) (directory : List SectionHeader) :
    h.computeChecksum directory = Checksum.checksum h.checksumKind
      ({ h with checksum := 0 }.encode ++ directory.flatMap SectionHeader.encode) := by
  rw [computeChecksum, Checksum.checksum, Checksum.Running.push_append, List.flatMap_def,
    ← Checksum.Running.foldl_push, List.foldl_map]

end MainHeader

end SectionArchive
