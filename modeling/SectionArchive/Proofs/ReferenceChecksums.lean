import Mathlib
import SectionArchive.Proofs.ChecksumChanges
import SectionArchive.Proofs.HeaderFields
import SectionArchive.Proofs.InflateSteps
/-!
What a checksum makes of a whole text. The weak one has two closed forms, a plain sum and a sum in
which a byte weighs as much as there are bytes from it to the end; CRC-32 is a division bit by bit,
without a table. A running checksum keeps to this reference: at whatever points of the text it is
asked, between pushes of any sizes, it tells the value of the bytes it has taken up, and being asked
changes nothing. The checksum of a header and its directory is a run of that kind.
-/

namespace SectionArchive

namespace Weak

def byteSum (bs : Bytes) : Nat := ∑ i : Fin bs.length, bs[i].toNat

/-- The sum in which each byte counts once for every byte from it to the end. -/
def weightedSum (bs : Bytes) : Nat := ∑ i : Fin bs.length, (bs.length - i) * bs[i].toNat

def closedForm (bs : Bytes) : UInt32 :=
  (UInt32.ofNat (weightedSum bs % 2 ^ 16) <<< 16) ||| UInt32.ofNat (byteSum bs % 2 ^ 16)

theorem byteSum_cons (b : UInt8) (bs : Bytes) : byteSum (b :: bs) = b.toNat + byteSum bs :=
  Fin.sum_univ_succ fun i : Fin (bs.length + 1) => (b :: bs)[i].toNat

theorem weightedSum_cons (b : UInt8) (bs : Bytes) :
    weightedSum (b :: bs) = (bs.length + 1) * b.toNat + weightedSum bs := by
  refine (Fin.sum_univ_succ fun i : Fin (bs.length + 1) =>
    (bs.length + 1 - i) * (b :: bs)[i].toNat).trans ?_
  -- A later byte stands one place further on, in a text that is one byte longer.
  simp only [Fin.val_succ, Nat.add_sub_add_right]
  rfl

/-- The first sum is counted once more for every byte that comes. -/
theorem foldl_update_eq (s : Sums) (bs : Bytes) :
    bs.foldl Sums.update s =
      { a := s.a + UInt16.ofNat (byteSum bs)
        b := s.b + UInt16.ofNat bs.length * s.a + UInt16.ofNat (weightedSum bs) } := by
  induction bs generalizing s with
  | nil => simp [byteSum, weightedSum]
  | cons b rest ih =>
    rw [List.foldl_cons, ih, Sums.mk.injEq, byteSum_cons, weightedSum_cons, List.length_cons,
      Sums.update, ← UInt16.ofNat_uInt8ToNat]
    simp only [UInt16.ofNat_add, UInt16.ofNat_mul]
    constructor
    · grind
    · grind

theorem toUInt32_ofNat (n : Nat) : (UInt16.ofNat n).toUInt32 = UInt32.ofNat (n % 2 ^ 16) := by
  rw [← UInt32.ofNat_uInt16ToNat, UInt16.toNat_ofNat']

theorem finish_foldl_update (bs : Bytes) : (bs.foldl Sums.update {}).finish = closedForm bs := by
  simp only [foldl_update_eq, Sums.finish, closedForm, UInt16.zero_add, UInt16.mul_zero,
    toUInt32_ofNat]

end Weak

namespace Crc32

/-- Take up one bit. The lowest bit of the register falls out, and the generator is subtracted
unless that is the bit that comes. -/
def takeBit (r : UInt32) (bit : Bool) : UInt32 :=
  if r.toNat % 2 = bit.toNat then r >>> 1 else (r >>> 1) ^^^ 0xEDB88320

/-- CRC-32 one bit after the other, those of a byte lowest first. -/
def bitSerial (bs : Bytes) : UInt32 :=
  (Deflate.bitsOf bs).foldl takeBit 0xFFFFFFFF ^^^ 0xFFFFFFFF

/-- To take up a bit is to add it and to shift. -/
theorem takeBit_eq (r : UInt32) (bit : Bool) :
    takeBit r bit = shift (r ^^^ UInt32.ofNat bit.toNat) := by
  have hle := Bool.toNat_le bit
  have hparity : (r ^^^ UInt32.ofNat bit.toNat).toNat % 2 = (r.toNat + bit.toNat) % 2 := by
    rw [UInt32.toNat_xor, Nat.xor_mod_two_eq]
    cases bit <;> rfl
  have hgone : (r ^^^ UInt32.ofNat bit.toNat) >>> 1 = r >>> 1 := by
    rw [UInt32.shiftRight_xor]
    cases bit <;> exact UInt32.xor_zero
  rcases Nat.mod_two_eq_zero_or_one (r ^^^ UInt32.ofNat bit.toNat).toNat with h | h
  · rw [takeBit, if_pos (by omega), shift_of_even h, hgone]
  · rw [takeBit, if_neg (by omega), shift_of_odd h, hgone, polynomial]

/-- Up to thirty-two bits are taken up like one word that holds them. -/
theorem foldl_takeBit_numberBits {w n : Nat} (hw : w ≤ 32) (hn : n < 2 ^ w) (r : UInt32) :
    (Deflate.numberBits w n).foldl takeBit r = Nat.repeat shift w (r ^^^ UInt32.ofNat n) := by
  induction w generalizing n r with
  | zero =>
    obtain rfl : n = 0 := by omega
    exact UInt32.xor_zero.symm
  | succ w ih =>
    have hpow : 2 ^ (w + 1) ≤ UInt32.size := Nat.pow_le_pow_right (by decide) hw
    have hhalf : n / 2 < 2 ^ w := by omega
    have hbit : (n % 2 == 1).toNat = n % 2 := by
      rcases Nat.mod_two_eq_zero_or_one n with h | h <;> rw [h] <;> rfl
    calc (Deflate.numberBits (w + 1) n).foldl takeBit r
        = (Deflate.numberBits w (n / 2)).foldl takeBit (takeBit r (n % 2 == 1)) := rfl
      _ = Nat.repeat shift w
            (Nat.repeat shift 1 (r ^^^ UInt32.ofNat (n % 2)) ^^^ UInt32.ofNat (n / 2)) := by
          rw [ih (by omega) hhalf, takeBit_eq, hbit]
          rfl
      _ = Nat.repeat shift (1 + w) (r ^^^ UInt32.ofNat (n % 2 + 2 ^ 1 * (n / 2))) :=
          repeat_shift_xor_ofNat (Nat.mod_lt n (by decide)) (by omega) w r
      _ = Nat.repeat shift (w + 1) (r ^^^ UInt32.ofNat n) := by
          rw [Nat.add_comm 1 w, Nat.pow_one, Nat.mod_add_div]

/-- The look-up of a byte does what its eight bits do one by one. -/
theorem update_eq_foldl_takeBit (r : UInt32) (b : UInt8) :
    update r b = (Deflate.byteBits b).foldl takeBit r := by
  rw [Deflate.byteBits_eq, foldl_takeBit_numberBits (by decide) b.toNat_lt, update_eq,
    UInt32.ofNat_uInt8ToNat]

theorem crc32_eq_bitSerial (bs : Bytes) : crc32 bs = bitSerial bs := by
  have hsteps : update = fun r b => (Deflate.byteBits b).foldl takeBit r :=
    funext fun r => funext (update_eq_foldl_takeBit r)
  rw [crc32, finish, start, bitSerial, Deflate.bitsOf, List.foldl_flatMap, hsteps]

/-- The value that is published with the algorithm, for the digits from one to nine. -/
example : bitSerial [0x31, 0x32, 0x33, 0x34, 0x35, 0x36, 0x37, 0x38, 0x39] = 0xCBF43926 := by cbv

end Crc32

namespace Checksum

def reference : Kind → Bytes → UInt32
  | .none, _ => 0
  | .weak, bs => Weak.closedForm bs
  | .crc32, bs => Crc32.bitSerial bs

theorem checksum_eq_reference (kind : Kind) (bs : Bytes) :
    checksum kind bs = reference kind bs := by
  cases kind with
  | none => rfl
  | weak => exact Weak.finish_foldl_update bs
  | crc32 => exact Crc32.crc32_eq_bitSerial bs

/-! ### Calls on a running checksum -/

inductive Call
  | push (bs : Bytes)
  | finish

def Running.step (s : Running) : Call → Running × List UInt32
  | .push bs => (s.push bs, [])
  | .finish => (s, [s.finish])

def Running.run (s : Running) : List Call → Running × List UInt32
  | [] => (s, [])
  | call :: calls =>
    let behind := s.step call
    let last := behind.1.run calls
    (last.1, behind.2 ++ last.2)

def Call.bytes : Call → Bytes
  | .push bs => bs
  | .finish => []

/-- What a call tells that is answered by the value of all bytes seen until then. -/
def Call.told (value : Bytes → UInt32) (seen : Bytes) : Call → List UInt32
  | .push _ => []
  | .finish => [value seen]

def toldAlong (value : Bytes → UInt32) (seen : Bytes) : List Call → List UInt32
  | [] => []
  | call :: calls => call.told value seen ++ toldAlong value (seen ++ call.bytes) calls

theorem step_push_start (kind : Kind) (seen : Bytes) (call : Call) :
    (kind.start.push seen).step call =
      (kind.start.push (seen ++ call.bytes), call.told (reference kind) seen) := by
  cases call with
  | push bs => rw [Running.step, Call.bytes, Call.told, Running.push_append]
  | finish =>
    have hvalue : (kind.start.push seen).finish = reference kind seen :=
      checksum_eq_reference kind seen
    rw [Running.step, Call.bytes, Call.told, List.append_nil, hvalue]

/-- The bytes seen so far tell the whole state, so one call after the other finds its own. -/
theorem run_push_start (kind : Kind) (seen : Bytes) (calls : List Call) :
    (kind.start.push seen).run calls =
      (kind.start.push (seen ++ calls.flatMap Call.bytes),
        toldAlong (reference kind) seen calls) := by
  induction calls generalizing seen with
  | nil =>
    rw [List.flatMap_nil, List.append_nil]
    rfl
  | cons call calls ih =>
    simp only [Running.run, step_push_start, ih, toldAlong, List.flatMap_cons, List.append_assoc]

/-- Whatever calls a running checksum gets, it tells at each request the reference value of all
bytes pushed until then, and ends where the pushes alone would have led it. So chunks may be cut
anywhere, and the checksum of a header and its directory is that of their bytes in a row. -/
theorem running_checksum_tells_reference :
    (∀ (kind : Kind) (calls : List Call),
      kind.start.run calls =
        (kind.start.push (calls.flatMap Call.bytes), toldAlong (reference kind) [] calls)) ∧
    (∀ (kind : Kind) (chunks : List Bytes),
      (chunks.foldl Running.push kind.start).finish = reference kind chunks.flatten) ∧
    (∀ (kind : Kind) (bs : Bytes), checksum kind bs = reference kind bs) ∧
    ∀ (h : MainHeader) (directory : List SectionHeader),
      h.computeChecksum directory = checksum h.checksumKind
        ({ h with checksum := 0 }.encode ++ directory.flatMap SectionHeader.encode) := by
  refine ⟨fun kind calls => ?_, fun kind chunks => ?_, checksum_eq_reference,
    MainHeader.computeChecksum_eq⟩
  · have hrun := run_push_start kind [] calls
    rwa [Running.push_nil, List.nil_append] at hrun
  · rw [Running.foldl_push]
    exact checksum_eq_reference kind chunks.flatten

end Checksum

end SectionArchive
