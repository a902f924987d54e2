import Mathlib
import SectionArchive.Proofs.Writing
import SectionArchive.Proofs.XzRoundTrip
import SectionArchive.Proofs.ZlibRoundTrip
/-!
Packing and unpacking whole byte strings. What a packed text delivers is the text, so a buffer of
the right size holds just that, a smaller one overflows, and a larger one is not full.
-/

namespace SectionArchive

namespace Lzma

theorem length_chunk_le (raw : Array UInt8) (found : Array Nat) (start stop : Nat) :
    (chunk raw found start stop).length ≤ stop - start + 6 := by
  simp only [chunk]
  split
  · simp only [List.length_cons, List.length_append, List.length_nil, sizeBytes]
    omega
  · simp only [List.length_cons, List.length_append, List.length_nil, sizeBytes,
      Array.length_toList, Array.size_extract]
    omega

theorem length_chunksFrom_le (raw : Array UInt8) (found : Array Nat) (n count : Nat) :
    (Unpacker.chunksFrom raw found n count).length ≤ count * (chunkSize + 6) := by
  induction count generalizing n with
  | zero => simp [Unpacker.chunksFrom]
  | succ count ih =>
    have hfirst := length_chunk_le raw found (n * chunkSize)
      (min raw.size (n * chunkSize + chunkSize))
    have hrest := ih (n + 1)
    rw [Unpacker.chunksFrom_succ, List.length_append, Nat.succ_mul]
    omega

/-- Packing never costs more than six bytes a chunk and the end mark. -/
theorem length_pack_le (bs : Bytes) : (pack bs).length ≤ 2 * bs.length + 2 * chunkSize := by
  have hchunks := length_chunksFrom_le bs.toArray (Lz77.candidates bs.toArray) 0
    ((bs.toArray.size + chunkSize - 1) / chunkSize)
  rw [Unpacker.pack_eq_chunksFrom, List.length_append, List.length_singleton]
  simp only [List.size_toArray, chunkSize] at hchunks ⊢
  omega

end Lzma

namespace Delivery

theorem output_ofBytes (bs : Bytes) (failure : Option StreamFault) :
    (ofBytes bs failure).output = bs := Bytes.flatten_pieces _ _

/-- What a packed text delivers. -/
theorem unpack_pack (method : Option Method) {raw : Bytes} (h : raw.length < 2 ^ 61) :
    unpack method (.whole (Codec.pack method raw)) = ofBytes raw none := by
  cases method with
  | none => rfl
  | some method =>
    cases method with
    | zlib =>
      obtain ⟨used, hdecode⟩ := Zlib.decode_encode raw
      simp only [unpack, zlib, Source.whole, Codec.pack, hdecode]
    | xz =>
      have hpacked := Lzma.length_pack_le raw
      simp only [Lzma.chunkSize] at hpacked
      have hdecode := Xz.decode_encode raw (by omega) (by omega)
      simp only [unpack, xz, Source.whole, Codec.pack, hdecode, Nat.lt_irrefl, if_false,
        Option.map_none]

/-- A delivery that does not fail is what the decoder makes of the data, however it is cut. -/
theorem unpack_eq_of_failure_eq_none {method : Option Method} {bs : Bytes}
    (h : (unpack method (.whole bs)).failure = none) (slice : Nat) :
    unpack method { data := bs, slice } = ofBytes (unpack method (.whole bs)).output none := by
  cases method with
  | none => exact congrArg (ofBytes · none) (output_ofBytes bs none).symm
  | some method =>
    cases method with
    | zlib =>
      simp only [unpack, zlib, Source.whole] at h ⊢
      cases hstop : (Zlib.decode bs).stop with
      | none => simp only [output_ofBytes]
      | some stop =>
        simp only [hstop] at h
        cases stop <;> cases h
    | xz =>
      simp only [unpack, xz, Source.whole] at h ⊢
      cases hstop : (Xz.decode bs).stop with
      | none =>
        simp only [hstop] at h ⊢
        by_cases hused : (Xz.decode bs).used < bs.length
        · simp only [hused, if_true] at h
          cases h
        · simp only [hused, if_false, Option.map_none, output_ofBytes]
      | some stop =>
        simp only [hstop] at h
        cases stop <;> cases h

end Delivery

namespace Codec

/-- Packing a byte string gives its packed form. -/
theorem compress_eq (method : Option Method) (raw : Bytes) :
    compress method raw = .ok (pack method raw) := by
  have hpieces : (packed method (.whole raw)).pieces.flatten = pack method raw := by
    cases method <;> exact Bytes.flatten_pieces _ _
  have hfailure : (packed method (.whole raw)).failure = none := by
    cases method <;> rfl
  obtain ⟨s, hwrite, hreceived⟩ := Sink.accepts_write.writePieces
    (packed method (.whole raw)).pieces Sink.accepting_unlimited
  have hbytes : s.bytes = pack method raw := by
    rw [hreceived.bytes_eq, hpieces]
    rfl
  simp only [compress, compressStream, asError, forward, hwrite, hfailure, hbytes]

theorem forward_of_le {d : Delivery} {limit : Nat} (h : d.output.length ≤ limit) :
    ∃ b : Buffer, b.bytes.toList = d.output ∧ b.overflowed = false ∧
      forward d Buffer.write { limit } =
        match d.failure with
        | some f => .error f b
        | none => .ok () b := by
  have hwrite := Buffer.writePieces_of_le (b := { limit }) d.pieces
    (by simpa [Delivery.output] using h)
  refine ⟨{ limit, bytes := #[] ++ d.pieces.flatten }, Array.toList_appendList, rfl, ?_⟩
  unfold forward
  cases hfailure : d.failure with
  | none => simp only [hwrite]
  | some f => simp only [hwrite]

theorem forward_of_lt {d : Delivery} {limit : Nat} (h : limit < d.output.length) :
    ∃ b : Buffer, b.overflowed = true ∧
      forward d Buffer.write { limit } = .error (.io .oversized) b := by
  obtain ⟨b, hwrite, hover⟩ := Buffer.writePieces_of_lt (b := { limit }) d.pieces
    (Nat.zero_le _) (by simpa [Delivery.output] using h)
  exact ⟨b, hover, by simp only [forward, hwrite]⟩

/-- What a buffer for `expected` bytes makes of a delivery, in whatever pieces it comes. -/
def gather (d : Delivery) (expected : Nat) : Except CodecError Bytes :=
  let result := asError .decompression (forward d Buffer.write) { limit := expected }
  let (failure, b) := match result with
    | .ok () b => (none, b)
    | .error e b => (some e, b)
  if b.overflowed then .error (.sizeMismatch expected (expected + 1))
  else
    match failure with
    | some e => .error e
    | none =>
      if b.bytes.size ≠ expected then .error (.sizeMismatch expected b.bytes.size)
      else .ok b.bytes.toList

theorem decompress_eq_gather (method : Option Method) (bs : Bytes) (expected : Nat) :
    decompress method bs expected = gather (.unpack method (.whole bs)) expected := rfl

/-- Gathering asks first whether a delivery is too much, then whether it failed, then whether it is
too little. -/
theorem gather_eq (d : Delivery) (expected : Nat) :
    gather d expected =
      if expected < d.output.length then .error (.sizeMismatch expected (expected + 1))
      else
        match d.failure with
        | some f => .error (.decompression f)
        | none =>
          if d.output.length < expected then .error (.sizeMismatch expected d.output.length)
          else .ok d.output := by
  by_cases hfits : d.output.length ≤ expected
  · obtain ⟨b, hbytes, hover, hforward⟩ := forward_of_le hfits
    have hsize : b.bytes.size = d.output.length := by
      rw [← hbytes, Array.length_toList]
    simp only [gather, asError, hforward, if_neg (Nat.not_lt.2 hfits)]
    cases d.failure with
    | some f => simp only [hover, Bool.false_eq_true, if_false]
    | none =>
      simp only [hover, Bool.false_eq_true, if_false, hsize, hbytes]
      by_cases hfull : d.output.length = expected
      · rw [if_neg (by omega), if_neg (by omega)]
      · rw [if_pos (by omega), if_pos (by omega)]
  · obtain ⟨b, hover, hforward⟩ := forward_of_lt (Nat.lt_of_not_le hfits)
    simp only [gather, asError, hforward, hover, if_true, if_pos (Nat.lt_of_not_le hfits)]

/-- So unpacking is decided by what is delivered. -/
theorem decompress_eq_delivery (method : Option Method) (bs : Bytes) (expected : Nat) :
    decompress method bs expected =
      let d := Delivery.unpack method (.whole bs)
      if expected < d.output.length then .error (.sizeMismatch expected (expected + 1))
      else
        match d.failure with
        | some f => .error (.decompression f)
        | none =>
          if d.output.length < expected then .error (.sizeMismatch expected d.output.length)
          else .ok d.output := gather_eq _ expected

/-- An intact delivery fills a buffer of its size, and no other. -/
theorem decompress_eq {method : Option Method} {bs raw : Bytes}
    (h : Delivery.unpack method (.whole bs) = .ofBytes raw none) (expected : Nat) :
    decompress method bs expected =
      if expected < raw.length then .error (.sizeMismatch expected (expected + 1))
      else if raw.length < expected then .error (.sizeMismatch expected raw.length)
      else .ok raw := by
  rw [decompress_eq_delivery, h]
  simp only [Delivery.output_ofBytes]
  rfl

/-- What was unpacked to a byte string is delivered whole, however the source is cut. -/
theorem unpack_of_decompress {method : Option Method} {bs raw : Bytes} {expected : Nat}
    (h : decompress method bs expected = .ok raw) (slice : Nat) :
    raw.length = expected ∧ Delivery.unpack method { data := bs, slice } = .ofBytes raw none := by
  rw [decompress_eq_delivery] at h
  simp only at h
  split at h
  · cases h
  · split at h
    · cases h
    · next hfailure =>
      split at h
      · cases h
      · have houtput := Except.ok.inj h
        refine ⟨by rw [← houtput]; omega, ?_⟩
        rw [← houtput]
        exact Delivery.unpack_eq_of_failure_eq_none hfailure slice

/-- A packed byte string is unpacked to itself when its size is announced right, and to no byte
string when it is announced wrong. -/
theorem decompress_compress (method : Option Method) (raw : Bytes) (h : raw.length < UInt32.size) :
    ∃ packed, compress method raw = .ok packed ∧ decompress method packed raw.length = .ok raw ∧
      ∀ expected, expected ≠ raw.length → ∃ actual,
        actual ≠ expected ∧
          decompress method packed expected = .error (.sizeMismatch expected actual) := by
  have hunpack := Delivery.unpack_pack method (Nat.lt_trans h (by decide))
  refine ⟨pack method raw, compress_eq method raw, ?_, fun expected hne => ?_⟩
  · rw [decompress_eq hunpack, if_neg (Nat.lt_irrefl _), if_neg (Nat.lt_irrefl _)]
  · rw [decompress_eq hunpack]
    by_cases hlt : expected < raw.length
    · exact ⟨expected + 1, by omega, if_pos hlt⟩
    · exact ⟨raw.length, hne.symm, by rw [if_neg hlt, if_pos (by omega)]⟩

/-- For one, three bytes packed by the packer with most parts. -/
theorem decompress_compress_three_bytes :
    ([3, 1, 3] : Bytes).length < UInt32.size ∧
      ∃ packed, compress (some .xz) [3, 1, 3] = .ok packed ∧
        decompress (some .xz) packed ([3, 1, 3] : Bytes).length = .ok [3, 1, 3] ∧
        ∀ expected, expected ≠ ([3, 1, 3] : Bytes).length → ∃ actual, actual ≠ expected ∧
          decompress (some .xz) packed expected = .error (.sizeMismatch expected actual) :=
  ⟨by decide, decompress_compress (some .xz) [3, 1, 3] (by decide)⟩

end Codec

end SectionArchive
