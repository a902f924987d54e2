import Mathlib
import SectionArchive.Proofs.FixedCodes
/-!
A zlib stream that was written is read back: the settings pass, the one block expands to the text
because its tokens spell it, and the trailer is the checksum of just that text.
-/

namespace SectionArchive.Zlib

open Deflate

theorem reads_takeSettings (out : Array UInt8) :
    Reads takeSettings (bitsOf [0x78, 0x9c]) () out out :=
  reads_bind (reads_byte 0x78 out) (reads_bind (reads_byte 0x9c out)
    (reads_require (by decide) out))

/-- The block of a text's tokens expands to the text. -/
theorem reads_takeBlocks {raw : Array UInt8} {tokens : List Lz77.Token} {fuel : Nat}
    (h : Lz77.Spells limits raw raw.size 0 tokens) (hfuel : tokens.length < fuel) (more : Nat) :
    Reads (takeBlocks fuel (more + 1)) (blockBits tokens) () #[] raw := by
  have hsymbols := reads_takeSymbols h (Nat.le_refl _) hfuel
  rw [Array.extract_zero, Array.extract_size] at hsymbols
  have hblock : Reads (takeBlock fuel) (blockBits tokens) true #[] raw := by
    simp only [blockBits, List.append_assoc]
    exact reads_bind (u := [true]) (reads_takeBit true #[]) (reads_bind (u := numberBits 2 1)
      (reads_takeBits_of_lt (by decide) #[]) (reads_map hsymbols fun _ => true))
  rw [← List.append_nil (blockBits tokens)]
  exact reads_bind hblock (reads_pure () raw)

theorem length_literalWords_pos {s : Nat} (hs : s < 288) :
    0 < (literalWords.getD s []).length := by
  have hword := literal_word_ne_nil _ (mem_literalWords hs)
  simpa only using hword

theorem length_tokenBits_pos (token : Lz77.Token) : 0 < (tokenBits token).length := by
  cases token with
  | literal b =>
    have hbyte : b.toNat < 288 := Nat.lt_trans b.toNat_lt (by decide)
    simpa only [tokenBits] using length_literalWords_pos hbyte
  | copy length distance =>
    have hrange : (lengthRanges.toList.filter fun r => r.base ≤ length).length ≤ 29 :=
      List.length_filter_le _ _
    have hword := length_literalWords_pos (s := firstLength + rangeIndex lengthRanges length)
      (by simp only [firstLength, rangeIndex]; omega)
    simp only [tokenBits, valueBits, List.length_append]
    omega

theorem length_le_length_flatMap_tokenBits (tokens : List Lz77.Token) :
    tokens.length ≤ (tokens.flatMap tokenBits).length := by
  induction tokens with
  | nil => simp
  | cons token rest ih =>
    have hpos := length_tokenBits_pos token
    simp only [List.flatMap_cons, List.length_cons, List.length_append]
    omega

theorem bigEndian32_eq (x : UInt32) :
    bigEndian32 x = [UInt8.ofNat (x.toNat / 256 / 256 / 256), UInt8.ofNat (x.toNat / 256 / 256),
      UInt8.ofNat (x.toNat / 256), UInt8.ofNat x.toNat] := rfl

theorem align_fill (n : Nat) (rest : List Bool) (out : Array UInt8) :
    align { bits := fill n ++ rest, taken := 16 + n, out } =
      .ok () { bits := rest, taken := 16 + n + (fill n).length, out } := by
  have hlen : (fill n).length = (8 - (16 + n) % 8) % 8 := by
    simp only [fill, List.length_replicate]
    omega
  simp only [align, ← hlen, List.drop_left]

/-- The trailer of the output passes, behind the block that ends anywhere in a byte. -/
theorem takeTrailer_bigEndian32 (raw : Array UInt8) (n : Nat) :
    takeTrailer { bits := fill n ++ bitsOf (bigEndian32 (Adler32.adler32 raw.toList)),
                  taken := 16 + n, out := raw } =
      .ok () { bits := [], taken := 16 + n + (fill n).length + 32, out := raw } := by
  have hbyte := fun (b : UInt8) (rest : List Bool) (taken : Nat) => reads_byte b raw rest taken
  have hsum := (Adler32.adler32 raw.toList).toNat_lt
  generalize hadler : Adler32.adler32 raw.toList = sum at *
  simp only [takeTrailer, bind, EStateM.bind, align_fill, bigEndian32_eq, bitsOf, List.flatMap_cons,
    hbyte, get, getThe, MonadStateOf.get, EStateM.get]
  rw [hadler, require, if_pos]
  · rfl
  · simp only [UInt8.toNat_ofNat', beq_iff_eq]
    omega

/-- Reading back a zlib stream. -/
theorem decode_encode (bs : Bytes) :
    ∃ used, decode (encode bs) = { output := bs, used, stop := none } := by
  obtain ⟨raw, rfl⟩ : ∃ raw : Array UInt8, bs = raw.toList := ⟨bs.toArray, rfl⟩
  have hspells := Lz77.spells_tokensFrom limits raw (Lz77.candidates raw) (Nat.zero_le raw.size)
  generalize htokens : (Lz77.tokensFrom limits raw (Lz77.candidates raw) raw.size 0 #[]).toList =
    tokens at hspells
  have hbits : bitsOf (encode raw.toList) = bitsOf [0x78, 0x9c] ++ (blockBits tokens ++
      (fill (blockBits tokens).length ++ bitsOf (bigEndian32 (Adler32.adler32 raw.toList)))) := by
    simp only [encode, Array.toArray_toList, htokens, bitsOf_append, bitsOf_pack, List.append_assoc]
  have hfuel : tokens.length < (bitsOf (encode raw.toList)).length + 1 := by
    have hle := length_le_length_flatMap_tokenBits tokens
    rw [hbits]
    simp only [blockBits, List.length_append]
    omega
  have hsettings := reads_takeSettings #[] (blockBits tokens ++ (fill (blockBits tokens).length ++
    bitsOf (bigEndian32 (Adler32.adler32 raw.toList)))) 0
  have hblocks := reads_takeBlocks hspells hfuel (bitsOf (encode raw.toList)).length
    (fill (blockBits tokens).length ++ bitsOf (bigEndian32 (Adler32.adler32 raw.toList))) 16
  rw [← hbits, show 0 + (bitsOf [0x78, 0x9c]).length = 16 from rfl] at hsettings
  simp only [decode, takeStream, bind, EStateM.bind, hsettings, hblocks, takeTrailer_bigEndian32]
  exact ⟨_, rfl⟩

end SectionArchive.Zlib
