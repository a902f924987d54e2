import Mathlib
import SectionArchive.Proofs.StreamSoundness
/-!
What streaming leaves behind. A meter forwards before it knows the end of a payload, so a writer is
left with the pieces that fit the announced size, and is left with them as well when the payload
turns out to be broken. Whether it is broken is what reading it whole says.
-/

namespace SectionArchive

namespace Section

variable {σ : Type} {w : Writer σ} {able : σ → Prop} {received : σ → Bytes} {content raw : Bytes}
  {h : SectionHeader} {s : Storage}

/-- However forwarding ends, what fits the announced size has gone by. -/
theorem forward_passes (hw : w.Willing able received) (h : SectionHeader) (method : Option Method)
    (source : Source) {sink : σ} (hsink : able sink) (index : Nat) (kind : Checksum.Kind) :
    received (Container.after (forward index h method kind source w sink)) =
      received sink ++ (Delivery.unpack method source).passed h.size.toNat := by
  by_cases hcomplete : Complete (.unpack method source) h.size.toNat
  · obtain ⟨hfailure, hlength⟩ := hcomplete
    obtain ⟨sink', htook, hforward⟩ := forward_of_complete hw.accepts hfailure hlength hsink index
      kind
    rw [hforward, Delivery.passed_of_le (Nat.le_of_eq hlength), ← htook]
    cases check index kind h.checksum
      (Checksum.checksum kind (Delivery.unpack method source).output) <;> rfl
  · obtain ⟨e, sink', hforward, -, hreceived⟩ := forward_of_not_complete hw hcomplete hsink index
      kind
    rw [hforward]
    exact hreceived

/-- What streaming a section leaves to a writer: nothing if the place reaches behind the content,
and else what of its bytes unpacks and fits the announced size. -/
def leftover (content : Bytes) (h : SectionHeader) : Bytes :=
  if content.length < h.stop.toNat then []
  else
    (Delivery.unpack (Flags.packing h.flags) (.buffered (place content h))).passed h.size.toNat

/-- The section's place does not reach behind the content, and its bytes unpack to this payload, of
the announced size and with the announced checksum. -/
def Unpacks (content : Bytes) (h : SectionHeader) (raw : Bytes) : Prop :=
  h.stop.toNat ≤ content.length ∧ ∀ index, decode index h (place content h) = .ok raw

/-- Forwarding a place succeeds if it unpacks whole, and either way all that fits has gone by. -/
theorem forward_leaves {index : Nat} {method : Option Method} {kind : Checksum.Kind}
    (hselection : h.selection index = .ok (method, kind)) (packed : Bytes) (slice : Nat) :
    let passed := (Delivery.unpack method { data := packed, slice }).passed h.size.toNat
    ∃ sink, sink.bytes = passed ∧
      (decode index h packed = .ok passed ∧
          forward index h method kind { data := packed, slice } Sink.write .unlimited =
            .ok passed.length sink ∨
        (∀ raw, decode index h packed ≠ .ok raw) ∧
          ∃ e, forward index h method kind { data := packed, slice } Sink.write .unlimited =
            .error e sink) := by
  intro passed
  have hpasses : Sink.bytes (Container.after _) = passed := forward_passes Sink.willing_write h
    method { data := packed, slice } Sink.accepting_unlimited index kind
  have hagree := forward_agrees Sink.willing_write hselection packed slice Sink.accepting_unlimited
  cases hforward : forward index h method kind { data := packed, slice } Sink.write .unlimited with
  | ok n sink =>
    rw [hforward] at hpasses hagree
    cases hdecode : decode index h packed with
    | error e =>
      obtain ⟨e', he', -⟩ := hagree.failure e hdecode
      cases he'
    | ok raw =>
      obtain ⟨hn, hraw⟩ := (hagree.payload raw).1 hdecode
      have hsame : raw = passed := hraw.symm.trans hpasses
      rw [hsame] at hn
      rw [hsame, Except.ok.inj hn]
      exact ⟨sink, hpasses, .inl ⟨rfl, rfl⟩⟩
  | error e sink =>
    rw [hforward] at hpasses hagree
    refine ⟨sink, hpasses, .inr ⟨?_, e, rfl⟩⟩
    intro raw hdecode
    obtain ⟨hn, -⟩ := (hagree.payload raw).1 hdecode
    cases hn

/-- Streaming a section succeeds when it is intact. Whether it is or not, the writer is left with
the same. -/
theorem stream_leaves (hs : s.Readable) (hflags : Flags.Valid h.flags) (index : Nat) :
    ∃ position sink, sink.bytes = leftover s.content h ∧
      (Unpacks s.content h (leftover s.content h) ∧ stream index h Sink.write (s, .unlimited) =
          .ok (leftover s.content h).length ({ s with position }, sink) ∨
        (∀ raw, ¬ Unpacks s.content h raw) ∧ ∃ e,
          stream index h Sink.write (s, .unlimited) = .error e ({ s with position }, sink)) := by
  have hselection := SectionHeader.selection_of_valid hflags index
  by_cases hstop : s.content.length < h.stop.toNat
  · refine ⟨s.content.length, .unlimited, ?_, .inr ⟨?_, ?_⟩⟩
    · unfold leftover
      rw [if_pos hstop]
      rfl
    · rintro raw ⟨hle, -⟩
      omega
    · refine ⟨.io (.truncatedPayload (s.content.length - h.pointer.toNat) h.csize.toNat), ?_⟩
      simp only [stream, hselection, locate_of_lt hs hstop]
  · obtain ⟨position, hlocate⟩ := locate_of_le hs (Nat.not_lt.1 hstop)
    have hleft : leftover s.content h = (Delivery.unpack (Flags.packing h.flags)
        { data := place s.content h, slice := Source.defaultSlice }).passed h.size.toNat := by
      unfold leftover
      rw [if_neg hstop]
      rfl
    obtain ⟨sink, hbytes, ⟨hdecode, hforward⟩ | ⟨hdecode, e, hforward⟩⟩ :=
      forward_leaves hselection (place s.content h) Source.defaultSlice
    · rw [← hleft] at hbytes hdecode hforward
      refine ⟨position, sink, hbytes, .inl ⟨⟨Nat.not_lt.1 hstop, ?_⟩, ?_⟩⟩
      · exact fun index' => decode_eq_ok_iff.2 (decode_eq_ok_iff.1 hdecode)
      · simp only [stream, hselection, hlocate, Source.buffered, hforward]
    · refine ⟨position, sink, hbytes.trans hleft.symm, .inr ⟨?_, e, ?_⟩⟩
      · exact fun raw hunpacks => hdecode raw (hunpacks.2 index)
      · simp only [stream, hselection, hlocate, Source.buffered, hforward]

end Section

end SectionArchive
