import Mathlib
import SectionArchive.Proofs.PacketRuns
/-!
Chunked data that was written is read back. Every chunk leaves the unpacker with a longer prefix of
the text and an untouched dictionary, whether the chunk is packed or stored; a packed one announces
its settings and starts with fresh probabilities, so nothing else of the earlier chunks matters.
-/

namespace SectionArchive.Lzma

namespace Unpacker

variable {s : Unpacker}

theorem takeByte_cons {b : UInt8} {rest : Bytes} (h : s.input = b :: rest) :
    takeByte s = .ok b { s with input := rest, taken := s.taken + 1 } := by
  simp only [takeByte, h]

theorem takeSize_sizeBytes {n : Nat} (hpos : 1 ≤ n) (hmax : n ≤ 65536) (rest : Bytes)
    (h : s.input = sizeBytes n ++ rest) :
    takeSize s = .ok n { s with input := rest, taken := s.taken + 2 } := by
  have hvalue :
      (UInt8.ofNat ((n - 1) / 256)).toNat * 256 + (UInt8.ofNat (n - 1)).toNat + 1 = n := by
    simp only [UInt8.toNat_ofNat']
    omega
  cases s
  subst h
  simp only [takeSize, sizeBytes, List.cons_append, List.nil_append, bind, EStateM.bind, takeByte,
    pure, EStateM.pure, hvalue, Nat.add_assoc]

theorem takeStored_append {bs rest : Bytes} (h : s.input = bs ++ rest) :
    takeStored bs.length s = .ok () { s with
      input := rest, taken := s.taken + bs.length, out := s.out ++ bs.toArray } := by
  induction bs generalizing s with
  | nil =>
    subst h
    simp [takeStored, pure, EStateM.pure]
  | cons b bs ih =>
    cases s
    subst h
    simp only [takeStored, List.cons_append, List.length_cons, bind, EStateM.bind, takeByte, modify,
      modifyGet, MonadStateOf.modifyGet, EStateM.modifyGet]
    rw [ih rfl]
    simp [Nat.add_assoc, Nat.add_comm 1]

/-! ### What is left after each chunk -/

/-- The unpacker has the text up to `start`, and may reach back into all of it. -/
structure Ready (raw : Array UInt8) (start : Nat) (s : Unpacker) : Prop where
  out_eq : s.out = raw.extract 0 start
  dictionary_eq : s.dictionary = wholeDictionary
  reset : start ≠ 0 → s.needsReset = false

/-- The dictionary part of a chunk that was written is fulfilled. -/
theorem resetDictionary_ready {raw : Array UInt8} {start : Nat} (h : Ready raw start s)
    (first later : Nat) (hfirst : 0xE0 ≤ first ∨ first = 1)
    (hlater : ¬ (0xE0 ≤ later ∨ later = 1)) :
    ∃ s', resetDictionary (if start = 0 then first else later) s = .ok () s' ∧ s'.input = s.input ∧
      s'.taken = s.taken ∧ s'.out = s.out ∧ s'.dictionary = wholeDictionary ∧
      s'.needsReset = false := by
  obtain ⟨hout, hdict, hreset⟩ := h
  by_cases hstart : start = 0
  · have hstep : resetDictionary first s = .ok () { s with
        dictionary := { s.dictionary with origin := s.out.size }
        needsReset := false
        needsSettings := true } := by
      simp only [resetDictionary, hfirst, if_true, modify, modifyGet, MonadStateOf.modifyGet,
        EStateM.modifyGet]
    rw [if_pos hstart]
    refine ⟨_, hstep, rfl, rfl, rfl, ?_, rfl⟩
    simp [hout, hdict, hstart, wholeDictionary]
  · refine ⟨s, ?_, rfl, rfl, rfl, hdict, hreset hstart⟩
    simp only [hstart, if_false, resetDictionary, hlater, bind, EStateM.bind, get, getThe,
      MonadStateOf.get, EStateM.get, hreset hstart, Bool.false_eq_true, pure, EStateM.pure]

theorem ofByte?_toByte_usual : Settings.ofByte? Settings.usual.toByte = some .usual := by decide

/-- Packed data that was written is unpacked, whatever comes behind it. -/
theorem takePacked_packChunk {raw : Array UInt8} (found : Array Nat) {start stop : Nat}
    {rest : Bytes} (hlt : start ≤ stop) (hstop : stop ≤ raw.size)
    (hinput : s.input = packChunk raw found start stop ++ rest) (hout : s.out = raw.extract 0 start)
    (hdict : s.dictionary = wholeDictionary) (hsettings : s.settings = .usual)
    (hhistory : s.history = {})
    (hprobs : s.probs = Array.replicate (Slot.count .usual) evenOdds) :
    ∃ s', takePacked (stop - start) (packChunk raw found start stop).length s = .ok () s' ∧
      s'.input = rest ∧ s'.taken = s.taken + (packChunk raw found start stop).length ∧
      s'.out = raw.extract 0 stop ∧ s'.dictionary = wholeDictionary ∧
      s'.needsReset = s.needsReset := by
  obtain ⟨input, taken, settings, history, probs, out, dictionary, needsReset, needsSettings⟩ := s
  simp only at hinput hout hdict hsettings hhistory hprobs
  subst hout hdict hsettings hhistory hprobs
  obtain ⟨d, d', d'', history, hd, hd', hd'', hrest, htaken⟩ :=
    exists_run_packChunk found hlt hstop rest taken
  have hend : (raw.extract 0 start).size + (stop - start) = stop := by
    rw [Array.size_extract]
    omega
  refine ⟨{
      input := d''.input
      taken := d''.taken
      history
      probs := d''.probs
      out := raw.extract 0 stop
      dictionary := wholeDictionary
      needsReset
      needsSettings }, ?_, hrest, htaken, rfl, rfl, rfl⟩
  simp only [takePacked, hinput, hd, hend, hd', hd'']

/-- A packed chunk that was written is read, settings first. -/
theorem packedChunk_sizeBytes {raw : Array UInt8} {found : Array Nat} {start stop : Nat}
    {rest : Bytes} (control : Nat) (hcontrol : control = 0xE0 ∨ control = 0xC0) (hlt : start < stop)
    (hsize : stop - start ≤ 65536)
    (hpacked : (packChunk raw found start stop).length < stop - start) (hstop : stop ≤ raw.size)
    (hinput : s.input = sizeBytes (stop - start) ++
      sizeBytes (packChunk raw found start stop).length ++ [Settings.usual.toByte] ++
      packChunk raw found start stop ++ rest)
    (hout : s.out = raw.extract 0 start) (hdict : s.dictionary = wholeDictionary) :
    ∃ s', packedChunk control s = .ok () s' ∧ s'.input = rest ∧
      s'.taken = s.taken + 5 + (packChunk raw found start stop).length ∧
      s'.out = raw.extract 0 stop ∧ s'.dictionary = wholeDictionary ∧
      s'.needsReset = s.needsReset := by
  have hpos := length_packChunk_pos raw found start stop
  have hkeep : ¬ control < 0xC0 := by omega
  have hreset : 0xA0 ≤ control := by omega
  have hsettings : 0xC0 ≤ control := by omega
  have hhigh : control % 32 = 0 := by omega
  simp only [List.append_assoc, List.cons_append, List.nil_append] at hinput
  have hsizes := takeSize_sizeBytes (by omega) hsize _ hinput
  have hlengths := takeSize_sizeBytes (n := (packChunk raw found start stop).length)
    (s := { s with
      input := sizeBytes (packChunk raw found start stop).length ++
        Settings.usual.toByte :: (packChunk raw found start stop ++ rest)
      taken := s.taken + 2 })
    (by omega) (by omega) (Settings.usual.toByte :: (packChunk raw found start stop ++ rest)) rfl
  obtain ⟨s', hs', hrest, htaken, hout', hdict', hreset'⟩ := takePacked_packChunk found
    (s := { s with
      input := packChunk raw found start stop ++ rest
      taken := s.taken + 2 + 2 + 1
      settings := .usual
      needsSettings := false
      history := {}
      probs := Array.replicate (Slot.count .usual) evenOdds })
    (Nat.le_of_lt hlt) hstop rfl hout hdict rfl rfl rfl
  refine ⟨s', ?_, hrest, htaken, hout', hdict', hreset'⟩
  rw [← hs']
  simp only [packedChunk, bind, EStateM.bind, hkeep, false_and, if_false, get,
    getThe, MonadStateOf.get, EStateM.get, hsizes, hlengths, hsettings, if_true, takeSettings,
    takeByte, ofByte?_toByte_usual, hreset, resetState, modify, modifyGet, MonadStateOf.modifyGet,
    EStateM.modifyGet, hhigh, Nat.zero_mul, Nat.zero_add]

/-! ### All chunks -/

theorem takeChunks_packed {control : UInt8} {rest : Bytes} {s₁ s₂ : Unpacker}
    (h : s.input = control :: rest) (hcontrol : 0x80 ≤ control.toNat)
    (hreset : resetDictionary control.toNat { s with input := rest, taken := s.taken + 1 } =
      .ok () s₁)
    (hchunk : packedChunk control.toNat s₁ = .ok () s₂) (fuel : Nat) :
    takeChunks (fuel + 1) s = takeChunks fuel s₂ := by
  have hne : control.toNat ≠ 0 := by omega
  simp only [takeChunks, bind, EStateM.bind, takeByte_cons h, hne, if_false, hreset, hcontrol,
    if_true, hchunk]

theorem takeChunks_stored {control : UInt8} {rest : Bytes} {s₁ s₂ s₃ : Unpacker} {size : Nat}
    (h : s.input = control :: rest) (hpos : control.toNat ≠ 0) (hcontrol : control.toNat ≤ 2)
    (hreset : resetDictionary control.toNat { s with input := rest, taken := s.taken + 1 } =
      .ok () s₁)
    (hsize : takeSize s₁ = .ok size s₂) (hstored : takeStored size s₂ = .ok () s₃) (fuel : Nat) :
    takeChunks (fuel + 1) s = takeChunks fuel s₃ := by
  have hlow : ¬ 0x80 ≤ control.toNat := by omega
  simp only [takeChunks, bind, EStateM.bind, takeByte_cons h, hpos, if_false, hreset, hlow,
    hcontrol, if_true, hsize, hstored]

/-- The control byte of a chunk depends on whether it is the first. -/
theorem toNat_control (start : Nat) (first later : UInt8) :
    (if start = 0 then first else later).toNat =
      if start = 0 then first.toNat else later.toNat := by
  split <;> rfl

/-- A packed chunk with its control byte is read, and the unpacker is ready for the next. -/
theorem takeChunks_packedChunk {raw : Array UInt8} {found : Array Nat} {start stop : Nat}
    {rest : Bytes} (hlt : start < stop) (hsize : stop - start ≤ 65536) (hstop : stop ≤ raw.size)
    (hpacked : (packChunk raw found start stop).length < stop - start) (h : Ready raw start s)
    (hinput : s.input = (if start = 0 then 0xE0 else 0xC0) ::
      (sizeBytes (stop - start) ++ sizeBytes (packChunk raw found start stop).length ++
        [Settings.usual.toByte] ++ packChunk raw found start stop ++ rest)) :
    ∃ s', (∀ fuel, takeChunks (fuel + 1) s = takeChunks fuel s') ∧ Ready raw stop s' ∧
      s'.input = rest ∧ s'.taken = s.taken + 6 + (packChunk raw found start stop).length := by
  have hcontrol := toNat_control start 0xE0 0xC0
  obtain ⟨s₁, hs₁, hinput₁, htaken₁, hout₁, hdict₁, hreset₁⟩ := resetDictionary_ready
    (s := { s with
      input := sizeBytes (stop - start) ++ sizeBytes (packChunk raw found start stop).length ++
        [Settings.usual.toByte] ++ packChunk raw found start stop ++ rest
      taken := s.taken + 1 })
    ⟨h.out_eq, h.dictionary_eq, h.reset⟩ 0xE0 0xC0 (by decide) (by decide)
  obtain ⟨s₂, hs₂, hinput₂, htaken₂, hout₂, hdict₂, hreset₂⟩ := packedChunk_sizeBytes
    (if start = 0 then 0xE0 else 0xC0) (by split <;> simp) hlt hsize hpacked hstop
    hinput₁ (hout₁.trans h.out_eq) hdict₁
  have hhigh : 0x80 ≤ (if start = 0 then 0xE0 else 0xC0 : UInt8).toNat := by
    split <;> decide
  refine ⟨s₂, takeChunks_packed hinput hhigh (hcontrol ▸ hs₁) (hcontrol ▸ hs₂),
    ⟨hout₂, hdict₂, fun _ => hreset₂.trans hreset₁⟩, hinput₂, ?_⟩
  rw [htaken₂, htaken₁]

/-- So is a stored one. -/
theorem takeChunks_storedChunk {raw : Array UInt8} {start stop : Nat} {rest : Bytes}
    (hlt : start < stop) (hsize : stop - start ≤ 65536) (hstop : stop ≤ raw.size)
    (h : Ready raw start s)
    (hinput : s.input = (if start = 0 then 0x01 else 0x02) ::
      (sizeBytes (stop - start) ++ (raw.extract start stop).toList ++ rest)) :
    ∃ s', (∀ fuel, takeChunks (fuel + 1) s = takeChunks fuel s') ∧ Ready raw stop s' ∧
      s'.input = rest ∧ s'.taken = s.taken + 3 + (stop - start) := by
  have hcontrol := toNat_control start 0x01 0x02
  obtain ⟨s₁, hs₁, hinput₁, htaken₁, hout₁, hdict₁, hreset₁⟩ := resetDictionary_ready
    (s := { s with
      input := sizeBytes (stop - start) ++ (raw.extract start stop).toList ++ rest
      taken := s.taken + 1 })
    ⟨h.out_eq, h.dictionary_eq, h.reset⟩ 0x01 0x02 (by decide) (by decide)
  have hlength : (raw.extract start stop).toList.length = stop - start := by
    rw [Array.length_toList, Array.size_extract]
    omega
  rw [List.append_assoc] at hinput₁
  have hs₂ := takeSize_sizeBytes (by omega) hsize _ hinput₁
  have hs₃ := takeStored_append (s := { s₁ with
    input := (raw.extract start stop).toList ++ rest, taken := s₁.taken + 2 }) rfl
  rw [hlength] at hs₃
  have hpos : (if start = 0 then 0x01 else 0x02 : UInt8).toNat ≠ 0 := by split <;> decide
  have hlow : (if start = 0 then 0x01 else 0x02 : UInt8).toNat ≤ 2 := by split <;> decide
  refine ⟨_, takeChunks_stored hinput hpos hlow (hcontrol ▸ hs₁) hs₂ hs₃,
    ⟨?_, hdict₁, fun _ => hreset₁⟩, rfl, ?_⟩
  · simp only [hout₁, h.out_eq, Array.toArray_toList, Array.extract_append_extract, Nat.zero_min,
      Nat.max_eq_right (Nat.le_of_lt hlt)]
  · simp only [htaken₁]

/-- One chunk that was written is read, and the unpacker is ready for the next. -/
theorem takeChunks_chunk {raw : Array UInt8} {found : Array Nat} {start stop : Nat} {rest : Bytes}
    (hlt : start < stop) (hsize : stop - start ≤ 65536) (hstop : stop ≤ raw.size)
    (h : Ready raw start s) (hinput : s.input = chunk raw found start stop ++ rest) :
    ∃ s', (∀ fuel, takeChunks (fuel + 1) s = takeChunks fuel s') ∧ Ready raw stop s' ∧
      s'.input = rest ∧ s'.taken = s.taken + (chunk raw found start stop).length := by
  by_cases hpacked : (packChunk raw found start stop).length < stop - start
  · simp only [chunk, if_pos hpacked] at hinput ⊢
    obtain ⟨s', hs', hready, hrest, htaken⟩ :=
      takeChunks_packedChunk hlt hsize hstop hpacked h hinput
    refine ⟨s', hs', hready, hrest, ?_⟩
    simp only [htaken, List.length_append, List.length_cons, List.length_nil, sizeBytes]
    omega
  · simp only [chunk, if_neg hpacked] at hinput ⊢
    obtain ⟨s', hs', hready, hrest, htaken⟩ := takeChunks_storedChunk hlt hsize hstop h hinput
    refine ⟨s', hs', hready, hrest, ?_⟩
    simp only [htaken, List.length_append, List.length_cons, List.length_nil, sizeBytes,
      Array.length_toList, Array.size_extract]
    omega

def chunksFrom (raw : Array UInt8) (found : Array Nat) (n count : Nat) : Bytes :=
  ((List.range' n count).map (· * chunkSize)).flatMap fun start =>
    chunk raw found start (min raw.size (start + chunkSize))

theorem chunksFrom_succ (raw : Array UInt8) (found : Array Nat) (n count : Nat) :
    chunksFrom raw found n (count + 1) =
      chunk raw found (n * chunkSize) (min raw.size (n * chunkSize + chunkSize)) ++
        chunksFrom raw found (n + 1) count := by
  simp only [chunksFrom, List.range'_succ, List.map_cons, List.flatMap_cons]

theorem length_chunk_pos (raw : Array UInt8) (found : Array Nat) (start stop : Nat) :
    0 < (chunk raw found start stop).length := by
  simp only [chunk]
  split <;> simp

theorem le_length_chunksFrom (raw : Array UInt8) (found : Array Nat) (n count : Nat) :
    count ≤ (chunksFrom raw found n count).length := by
  induction count generalizing n with
  | zero => exact Nat.zero_le _
  | succ count ih =>
    have hpos := length_chunk_pos raw found (n * chunkSize)
      (min raw.size (n * chunkSize + chunkSize))
    have hrest := ih (n + 1)
    rw [chunksFrom_succ, List.length_append]
    omega

/-- Reading all chunks from the `n`th on. -/
theorem takeChunks_chunksFrom (raw : Array UInt8) (found : Array Nat) (n count : Nat) (rest : Bytes)
    (hcount : n + count = (raw.size + chunkSize - 1) / chunkSize)
    (h : Ready raw (min raw.size (n * chunkSize)) s)
    (hinput : s.input = chunksFrom raw found n count ++ 0 :: rest) (fuel : Nat)
    (hfuel : count < fuel) :
    ∃ s', takeChunks fuel s = .ok () s' ∧ s'.out = raw ∧ s'.input = rest ∧
      s'.taken = s.taken + (chunksFrom raw found n count).length + 1 := by
  obtain ⟨fuel, rfl⟩ : ∃ k, fuel = k + 1 := ⟨fuel - 1, by omega⟩
  -- Along the chunks: each leaves the unpacker ready for the next, and fuel for those behind it.
  induction count generalizing n s fuel with
  | zero =>
    have hall : min raw.size (n * chunkSize) = raw.size := by
      simp only [chunkSize] at hcount ⊢
      omega
    have hout := h.out_eq
    rw [hall, Array.extract_size] at hout
    refine ⟨{ s with input := rest, taken := s.taken + 1 }, ?_, hout, rfl, rfl⟩
    simp only [takeChunks, bind, EStateM.bind, takeByte_cons hinput]
    rfl
  | succ count ih =>
    have hstart : n * chunkSize < raw.size := by
      simp only [chunkSize] at hcount ⊢
      omega
    have hsize : min raw.size (n * chunkSize + chunkSize) - n * chunkSize ≤ 65536 := by
      simp only [chunkSize]
      omega
    rw [chunksFrom_succ, List.append_assoc] at hinput
    rw [Nat.min_eq_right (Nat.le_of_lt hstart)] at h
    obtain ⟨s', hs', hready, hinput', htaken⟩ := takeChunks_chunk
      (lt_min hstart (Nat.lt_add_of_pos_right (by decide))) hsize (Nat.min_le_left _ _) h hinput
    obtain ⟨fuel, rfl⟩ : ∃ k, fuel = k + 1 := ⟨fuel - 1, by omega⟩
    rw [← Nat.succ_mul] at hready
    obtain ⟨s'', hs'', hout, hrest, htaken'⟩ :=
      ih (n + 1) (by omega) hready hinput' fuel (by omega)
    refine ⟨s'', (hs' _).trans hs'', hout, hrest, ?_⟩
    rw [htaken', htaken, chunksFrom_succ, List.length_append]
    omega

theorem pack_eq_chunksFrom (bs : Bytes) :
    pack bs = chunksFrom bs.toArray (Lz77.candidates bs.toArray) 0
      ((bs.toArray.size + chunkSize - 1) / chunkSize) ++ [0] := by
  rw [pack, chunksFrom, List.range_eq_range']

/-- Chunked data that was written is unpacked to the text, whatever comes behind it. -/
theorem takeChunks_pack (bs rest : Bytes) :
    ∃ s, takeChunks ((pack bs ++ rest).length + 1) (start (pack bs ++ rest) limits.maxDistance) =
        .ok () s ∧
      s.out = bs.toArray ∧ s.input = rest ∧ s.taken = (pack bs).length := by
  have hcount := le_length_chunksFrom bs.toArray (Lz77.candidates bs.toArray) 0
    ((bs.toArray.size + chunkSize - 1) / chunkSize)
  have hpack := pack_eq_chunksFrom bs
  generalize hchunks : (bs.toArray.size + chunkSize - 1) / chunkSize = count at hcount hpack
  rw [hpack, List.append_assoc, List.singleton_append]
  obtain ⟨s, hs, hout, hrest, htaken⟩ := takeChunks_chunksFrom bs.toArray
    (Lz77.candidates bs.toArray) 0 count rest (s := start _ limits.maxDistance)
    ((Nat.zero_add _).trans hchunks.symm) ⟨by simp [start], rfl, by simp⟩ rfl
    ((chunksFrom bs.toArray (Lz77.candidates bs.toArray) 0 count ++ 0 :: rest).length + 1)
    (by rw [List.length_append]; omega)
  exact ⟨s, hs, hout, hrest, by rw [htaken]; simp [start]⟩

end Unpacker

end SectionArchive.Lzma
