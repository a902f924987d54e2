import Mathlib
import SectionArchive.Proofs.Streaming
/-!
Payloads that are not all on the storage. Streaming compares the end of the place with the end of
the storage before it reads, reading counts what it got; both name the same shortage. They part only
over a place of no bytes behind the end of the storage: streaming refuses to go there, reading has
all that it asked for and goes on to unpack nothing.
-/

namespace SectionArchive

namespace Section

variable {s : Storage} {content : Bytes} {h : SectionHeader}

def shortage (content : Bytes) (h : SectionHeader) : Fault :=
  .truncatedPayload (content.length - h.pointer.toNat) h.csize.toNat

theorem length_place_of_lt (hout : content.length < h.pointer.toNat + h.csize.toNat) :
    (place content h).length = content.length - h.pointer.toNat := by
  rw [place, List.length_take, List.length_drop]
  omega

/-- What is there of a payload is less than all, unless all of it is nothing. -/
theorem contained_of_lt (hout : content.length < h.pointer.toNat + h.csize.toNat) (index : Nat) :
    contained index content h =
      if h.csize = 0 then decode index h [] else .error (.io (shortage content h)) := by
  have hlength := length_place_of_lt hout
  unfold contained
  by_cases hnone : h.csize = 0
  · have hempty : place content h = [] := by
      rw [place, hnone]
      exact List.take_zero
    rw [if_pos hnone, hempty, hnone]
    rfl
  · have hsome : h.csize.toNat ≠ 0 := fun hzero => hnone (UInt32.toNat_inj.1 hzero)
    rw [if_neg hnone, hlength, if_pos (by omega), shortage]

/-- An end that was cut still lies behind a storage shorter than the largest offset. -/
theorem lt_stop_of_lt (hlength : content.length < UInt64.size - 1)
    (hout : content.length < h.pointer.toNat + h.csize.toNat) :
    content.length < h.stop.toNat := by
  rw [SectionHeader.toNat_stop]
  exact Nat.lt_min.2 ⟨hout, hlength⟩

/-- Streaming notices the shortage before the writer is asked for anything. -/
theorem stream_of_lt {σ : Type} (hs : s.Readable) (hflags : Flags.Valid h.flags)
    (hstop : s.content.length < h.stop.toNat) (index : Nat) (w : Writer σ) (sink : σ) :
    stream index h w (s, sink) =
      .error (.io (shortage s.content h)) ({ s with position := s.content.length }, sink) := by
  simp only [stream, SectionHeader.selection_of_valid hflags, locate_of_lt hs hstop, shortage]

/-- Of a payload that ends behind the storage, both ways report how much is there of how much, and
streaming has written nothing. Only a payload packed to no bytes is not missed by reading, which
then unpacks nothing. -/
theorem truncated_payload_is_reported {σ : Type} (hs : s.FaultFree)
    (hlength : s.content.length < UInt64.size - 1) (hflags : Flags.Valid h.flags)
    (hout : s.content.length < h.pointer.toNat + h.csize.toNat) (index : Nat) (w : Writer σ)
    (sink : σ) :
    (shortage s.content h).kind = "UnexpectedEof" ∧
      answer (stream index h w (s, sink)) = .error (.io (shortage s.content h)) ∧
      (Container.after (stream index h w (s, sink))).2 = sink ∧
      answer (read index h s) =
        if h.csize = 0 then decode index h [] else .error (.io (shortage s.content h)) := by
  have hstream := stream_of_lt hs.readable hflags (lt_stop_of_lt hlength hout) index w sink
  refine ⟨rfl, ?_, ?_, ?_⟩
  · rw [hstream]
    rfl
  · rw [hstream]
    rfl
  · rw [answer_read hs, contained_of_lt hout]

/-- For one, five bytes that should lie behind the largest offset. -/
theorem truncated_payload_is_reported_at_the_largest_offset :
    let h : SectionHeader := { pointer := 0xFFFFFFFFFFFFFFFF, csize := 5, size := 9, flags := 0x5 }
    let s : Storage := { content := [1, 2, 3], position := 2 }
    s.FaultFree ∧ s.content.length < UInt64.size - 1 ∧ Flags.Valid h.flags ∧
      s.content.length < h.pointer.toNat + h.csize.toNat ∧
      (Fault.truncatedPayload 0 5).kind = "UnexpectedEof" ∧
      answer (stream 7 h Sink.write (s, .unlimited)) = .error (.io (.truncatedPayload 0 5)) ∧
      (Container.after (stream 7 h Sink.write (s, .unlimited))).2 = .unlimited ∧
      answer (read 7 h s) = .error (.io (.truncatedPayload 0 5)) := by
  intro h s
  have hfree : s.FaultFree := fun _ => rfl
  have hlength : s.content.length < UInt64.size - 1 := by decide
  have hflags : Flags.Valid h.flags := ⟨by decide, by decide⟩
  have hout : s.content.length < h.pointer.toNat + h.csize.toNat := by decide
  have hshortage : shortage s.content h = .truncatedPayload 0 5 := by decide
  have hsome : ¬ h.csize = 0 := by decide
  have hreported :=
    truncated_payload_is_reported hfree hlength hflags hout 7 Sink.write .unlimited
  rw [if_neg hsome, hshortage] at hreported
  exact ⟨hfree, hlength, hflags, hout, hreported⟩

/-- A payload of no bytes that should lie behind the end is read, but cannot be streamed. -/
theorem empty_payload_behind_the_end :
    let h : SectionHeader := { pointer := 5 }
    let s : Storage := {}
    s.content.length < h.pointer.toNat + h.csize.toNat ∧ answer (read 0 h s) = .ok [] ∧
      answer (stream 0 h Sink.write (s, .unlimited)) = .error (.io (.truncatedPayload 0 0)) := by
  intro h s
  have hs : s.FaultFree := fun _ => rfl
  have hflags : Flags.Valid h.flags := ⟨by decide, by decide⟩
  have hout : s.content.length < h.pointer.toNat + h.csize.toNat := by decide
  have hfits : Piece.Fits { ty := 0, flags := 0, raw := [] } := ⟨hflags, by decide, by decide⟩
  have hdecode : decode 0 h [] = .ok [] := decode_piece hfits rfl rfl rfl 0
  refine ⟨hout, ?_, ?_⟩
  · rw [answer_read hs, contained_of_lt hout, if_pos rfl, hdecode]
  · rw [stream_of_lt hs.readable hflags (by decide)]
    rfl

end Section

end SectionArchive
