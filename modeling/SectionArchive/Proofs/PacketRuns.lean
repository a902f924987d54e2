import Mathlib
import SectionArchive.Lzma.Chunks
import SectionArchive.Proofs.PacketAnswers
import SectionArchive.Proofs.Spelling
/-!
The packets of one chunk. The packer and the unpacker step through the same histories and see the
same bytes at the same distances, so they ask with the same slots; the decoder follows the encoder
from packet to packet, and the output grows from one prefix of the text to the next.
-/

namespace SectionArchive.Lzma

/-- The dictionary of a text that was never reset in between. -/
def wholeDictionary : Dictionary := { origin := 0, window := limits.maxDistance }

/-- Both sides choose the probabilities of the next packet alike. -/
theorem context_extract {raw : Array UInt8} {p : Packer} (hpos : p.position ≤ raw.size)
    (hrep : 1 ≤ p.history.rep0) :
    wholeDictionary.context .usual p.history (raw.extract 0 p.position) = p.context raw := by
  have hsize : (raw.extract 0 p.position).size = p.position := by
    rw [Array.size_extract]
    omega
  have hposition : wholeDictionary.position (raw.extract 0 p.position) = p.position := hsize
  have hback : ∀ n, 1 ≤ n → wholeDictionary.back (raw.extract 0 p.position) n =
      if n ≤ p.position then raw.getD (p.position - n) 0 else 0 := by
    intro n hn
    simp only [Dictionary.back, hposition, hsize]
    split
    · rw [Lz77.getD_extract (by omega) hpos]
    · rfl
  have hprevious : (if 1 ≤ p.position then raw.getD (p.position - 1) 0 else 0) =
      if p.position = 0 then 0 else raw.getD (p.position - 1) 0 := by
    split <;> split <;> first | rfl | omega
  simp only [Dictionary.context, Packer.context, hback 1 (Nat.le_refl 1), hback _ hrep, hprevious,
    hposition]

/-! ### One packet -/

theorem takePackets_done {dictionary : Dictionary} {settings : Settings} {stop fuel : Nat}
    {d : RangeDecoder} {history : History} {out : Array UInt8} (h : stop ≤ out.size) :
    takePackets dictionary settings stop (fuel + 1) d history out = ⟨d, history, out, none⟩ := by
  rw [takePackets, if_pos h]

theorem takePackets_literal {dictionary : Dictionary} {settings : Settings} {stop fuel : Nat}
    {d d' : RangeDecoder} {history : History} {out : Array UInt8} {b : UInt8}
    (h : ¬ stop ≤ out.size)
    (hrun : RangeDecoder.run (Packet.program (dictionary.context settings history out)) d =
      .ok (.literal b) d') :
    takePackets dictionary settings stop (fuel + 1) d history out =
      takePackets dictionary settings stop fuel d' (history.step (.literal b)).2 (out.push b) := by
  rw [takePackets, if_neg h, hrun]

theorem takePackets_copy {dictionary : Dictionary} {settings : Settings} {stop fuel : Nat}
    {d d' : RangeDecoder} {history : History} {out : Array UInt8} {length distance : Nat}
    (h : ¬ stop ≤ out.size)
    (hrun : RangeDecoder.run (Packet.program (dictionary.context settings history out)) d =
      .ok (.fresh length distance) d')
    (hreach : dictionary.reaches out distance = true) (hroom : out.size + length ≤ stop) :
    takePackets dictionary settings stop (fuel + 1) d history out =
      takePackets dictionary settings stop fuel d' (history.step (.fresh length distance)).2
        (Lz77.copyFrom distance length out) := by
  have hfits : ¬ stop - out.size < length := by omega
  simp only [takePackets, if_neg h, hrun, History.step, hreach, Bool.not_true, Bool.false_eq_true,
    if_false, hfits]

/-! ### All packets -/

theorem Sound.foldl_push (raw : Array UInt8) {p : Packer} (h : p.encoder.Sound)
    (tokens : List Lz77.Token) : (tokens.foldl (Packer.push raw) p).encoder.Sound := by
  induction tokens generalizing p with
  | nil => exact h
  | cons token rest ih => exact ih (RangeEncoder.Sound.run h _ _)

theorem Holds.of_foldl_push {raw : Array UInt8} {p : Packer} (h : p.encoder.Sound)
    {tokens : List Lz77.Token} {out : Bytes}
    (hout : (tokens.foldl (Packer.push raw) p).encoder.Holds out) : p.encoder.Holds out := by
  induction tokens generalizing p with
  | nil => exact hout
  | cons token rest ih =>
    exact RangeEncoder.Holds.of_run h (ih (RangeEncoder.Sound.run h _ _) hout)

/-- The next packet is read as it was written, whatever packets come behind it. -/
theorem Follows.packet {p : Packer} {d : RangeDecoder} {out rest : Bytes} {start : Nat}
    (hf : Follows d p.encoder out rest start) {raw : Array UInt8} {token : Lz77.Token}
    {tokens : List Lz77.Token} (hpos : p.position ≤ raw.size) (hrep : 1 ≤ p.history.rep0)
    (htoken : Expressible token) (h : p.encoder.Sound)
    (hout : ((token :: tokens).foldl (Packer.push raw) p).encoder.Holds out) :
    (p.push raw token).encoder.Sound ∧
      ∃ d', RangeDecoder.run (Packet.program (wholeDictionary.context .usual p.history
          (raw.extract 0 p.position))) d = .ok (Packer.packet token) d' ∧
        Follows d' (p.push raw token).encoder out rest start := by
  have hsound : (p.push raw token).encoder.Sound :=
    RangeEncoder.Sound.run h (Packet.program (p.context raw)) (answers token)
  have hholds : (p.push raw token).encoder.Holds out := Holds.of_foldl_push hsound hout
  refine ⟨hsound, ?_⟩
  rw [context_extract hpos hrep]
  exact hf.run (yields_packet _ htoken) h hholds

theorem reaches_extract {raw : Array UInt8} {position distance : Nat} (hpos : position ≤ raw.size)
    (hdistance : distance ≤ limits.maxDistance) (hback : distance ≤ position) :
    wholeDictionary.reaches (raw.extract 0 position) distance = true := by
  have hsize : (raw.extract 0 position).size = position := by
    rw [Array.size_extract]
    omega
  simp only [Dictionary.reaches, Dictionary.position, wholeDictionary, hsize, decide_eq_true_eq]
  omega

/-- Reading the packets of a text's tokens gives the text. -/
theorem takePackets_of_spells {raw : Array UInt8} {stop : Nat} {tokens : List Lz77.Token}
    {p : Packer} {d : RangeDecoder} {out rest : Bytes} {start : Nat}
    (hspells : Lz77.Spells limits raw stop p.position tokens) (hstop : stop ≤ raw.size)
    (hrep : 1 ≤ p.history.rep0) (h : p.encoder.Sound) (hf : Follows d p.encoder out rest start)
    (hout : (tokens.foldl (Packer.push raw) p).encoder.Holds out) (fuel : Nat)
    (hfuel : tokens.length < fuel) :
    ∃ d', takePackets wholeDictionary .usual stop fuel d p.history (raw.extract 0 p.position) =
        ⟨d', (tokens.foldl (Packer.push raw) p).history, raw.extract 0 stop, none⟩ ∧
      Follows d' (tokens.foldl (Packer.push raw) p).encoder out rest start := by
  obtain ⟨i, hi⟩ : ∃ i, i = p.position := ⟨_, rfl⟩
  rw [← hi] at hspells
  obtain ⟨fuel, rfl⟩ := Nat.exists_eq_add_one_of_ne_zero (Nat.ne_zero_of_lt hfuel)
  -- The induction is on the spelling; the packer and the decoder move on with it.
  induction hspells generalizing p d fuel with
  | done =>
    refine ⟨d, ?_, hf⟩
    rw [hi]
    exact takePackets_done (by rw [Array.size_extract]; omega)
  | @literal i tokens hlt htail ih =>
    subst hi
    have hmore : tokens.length < fuel := Nat.lt_of_succ_lt_succ hfuel
    have hexpressible : Expressible (.literal (raw.getD p.position 0)) := trivial
    obtain ⟨hsound, d', hd', hf'⟩ := hf.packet (by omega) hrep hexpressible h hout
    obtain ⟨fuel, rfl⟩ := Nat.exists_eq_add_one_of_ne_zero (Nat.ne_zero_of_lt hmore)
    obtain ⟨d₂, hd₂, hf₂⟩ := ih (p := p.push raw (.literal (raw.getD p.position 0))) hrep hsound
      hf' hout rfl fuel hmore
    refine ⟨d₂, ?_, hf₂⟩
    rw [takePackets_literal (by rw [Array.size_extract]; omega) hd', Lz77.push_extract (by omega)]
    exact hd₂
  | @copy i length distance tokens hpos hmin hmax hdist hfar hback hend hsame htail ih =>
    subst hi
    have hmore : tokens.length < fuel := Nat.lt_of_succ_lt_succ hfuel
    have hexpressible : Expressible (.copy length distance) := by
      simp only [limits] at hmin hmax hfar
      exact ⟨by omega, hmax, hdist, Nat.le_trans hfar (by decide)⟩
    obtain ⟨hsound, d', hd', hf'⟩ := hf.packet (by omega) hrep hexpressible h hout
    obtain ⟨fuel, rfl⟩ := Nat.exists_eq_add_one_of_ne_zero (Nat.ne_zero_of_lt hmore)
    obtain ⟨d₂, hd₂, hf₂⟩ := ih (p := p.push raw (.copy length distance)) hdist hsound
      hf' hout rfl fuel hmore
    have hsize : (raw.extract 0 p.position).size = p.position := by
      rw [Array.size_extract]
      omega
    refine ⟨d₂, ?_, hf₂⟩
    rw [takePackets_copy (by omega) hd' (reaches_extract (by omega) hfar hback) (by omega),
      Lz77.copyFrom_extract hdist hback (by omega) hsame]
    exact hd₂

/-! ### A chunk's packed data -/

def freshPacker (start : Nat) : Packer :=
  { position := start, encoder := { probs := Array.replicate (Slot.count .usual) evenOdds } }

theorem sound_freshPacker (start : Nat) : (freshPacker start).encoder.Sound := by
  apply RangeEncoder.sound_fresh
  intro i
  simp only [Array.getD_eq_getD_getElem?, Array.getElem?_replicate]
  split <;> exact ⟨by decide, by decide⟩

theorem packChunk_eq (raw : Array UInt8) (found : Array Nat) (start stop : Nat) :
    packChunk raw found start stop = ((Lz77.tokensFrom limits raw found stop start #[]).toList.foldl
      (Packer.push raw) (freshPacker start)).encoder.finish := by
  rw [packChunk, ← Array.foldl_toList]
  rfl

theorem length_packChunk_pos (raw : Array UInt8) (found : Array Nat) (start stop : Nat) :
    0 < (packChunk raw found start stop).length := by
  rw [packChunk_eq,
    (RangeEncoder.leading_finish (Sound.foldl_push raw (sound_freshPacker start) _)).1,
    RangeEncoder.width]
  omega

/-- Reading packed data from its first byte to its last. -/
theorem exists_run_packChunk {raw : Array UInt8} (found : Array Nat) {start stop : Nat}
    (hlt : start ≤ stop) (hstop : stop ≤ raw.size) (rest : Bytes) (taken : Nat) :
    ∃ d d' d'' history,
      RangeDecoder.start {
          input := packChunk raw found start stop ++ rest
          taken
          budget := (packChunk raw found start stop).length
          range := 0
          code := 0
          probs := Array.replicate (Slot.count .usual) evenOdds } = .ok () d ∧
      takePackets wholeDictionary .usual stop (stop - start + 1) d {} (raw.extract 0 start) =
        ⟨d', history, raw.extract 0 stop, none⟩ ∧
      d'.finish = .ok () d'' ∧ d''.input = rest ∧
      d''.taken = taken + (packChunk raw found start stop).length := by
  have hspells := Lz77.spells_tokensFrom limits raw found hlt
  have hcount := hspells.add_length_le
  rw [packChunk_eq]
  generalize (Lz77.tokensFrom limits raw found stop start #[]).toList = tokens at *
  have hsound := sound_freshPacker start
  have hlast := Sound.foldl_push raw hsound tokens
  have hholds := RangeEncoder.Holds.finish hlast
  obtain ⟨d, hd, hf⟩ := Follows.init (Holds.of_foldl_push hsound hholds) rest taken
  obtain ⟨d', hd', hf'⟩ := takePackets_of_spells hspells hstop (Nat.le_refl 1) hsound hf hholds
    (stop - start + 1) (by omega)
  obtain ⟨d'', hd'', hinput, htaken, -⟩ := hf'.finish hlast
  exact ⟨d, d', d'', _, hd, hd', hd'', hinput, htaken⟩

end SectionArchive.Lzma
