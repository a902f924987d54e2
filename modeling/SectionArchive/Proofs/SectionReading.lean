import Mathlib
import SectionArchive.Proofs.FaultFreeStorage
import SectionArchive.Proofs.SectionRoundTrip
/-!
Payloads on a storage that can be read. What a header's place holds is a matter of the bytes
alone; reading gives it and moves only the cursor, and streaming sends the very same bytes to any
writer that goes on taking them.
-/

namespace SectionArchive

namespace Section

def place (content : Bytes) (h : SectionHeader) : Bytes :=
  (content.drop h.pointer.toNat).take h.csize.toNat

/-- What reading a section should come to. -/
def contained (index : Nat) (content : Bytes) (h : SectionHeader) : Except Error Bytes :=
  if (place content h).length ≠ h.csize.toNat then
    .error (.io (.truncatedPayload (place content h).length h.csize.toNat))
  else decode index h (place content h)

def Holds (content : Bytes) (h : SectionHeader) (raw : Bytes) : Prop :=
  ∀ index, contained index content h = .ok raw

/-- The place that a header names lies inside the content and holds this payload. -/
def Stored (content : Bytes) (h : SectionHeader) (raw : Bytes) : Prop :=
  h.pointer.toNat + h.csize.toNat ≤ content.length ∧ Holds content h raw

theorem contained_eq_ok_iff {index : Nat} {content : Bytes} {h : SectionHeader} {raw : Bytes} :
    contained index content h = .ok raw ↔ Holds content h raw := by
  refine ⟨fun hok index' => ?_, fun hall => hall index⟩
  simp only [contained] at hok ⊢
  split at hok
  · simp at hok
  · next hlength =>
    rw [if_neg hlength, decode_eq_ok_iff]
    exact decode_eq_ok_iff.1 hok

/-- A place holds one payload at most. -/
theorem Holds.unique {content : Bytes} {h : SectionHeader} {raw raw' : Bytes}
    (hholds : Holds content h raw) (hholds' : Holds content h raw') : raw = raw' :=
  Except.ok.inj ((hholds 0).symm.trans (hholds' 0))

/-- A place that holds a payload has all its packed bytes, and they are read as the payload. -/
theorem Holds.decode_place {content : Bytes} {h : SectionHeader} {raw : Bytes}
    (hholds : Holds content h raw) (index : Nat) :
    (place content h).length = h.csize.toNat ∧ decode index h (place content h) = .ok raw := by
  have hcontained := hholds index
  simp only [contained] at hcontained
  split at hcontained
  · cases hcontained
  · next hlength => exact ⟨not_not.1 hlength, hcontained⟩

/-- A place does not reach behind its end. -/
theorem place_append {content : Bytes} {h : SectionHeader}
    (hplace : h.pointer.toNat + h.csize.toNat ≤ content.length) (rest : Bytes) :
    place (content ++ rest) h = place content h := by
  rw [place, List.drop_append_of_le_length (by omega),
    List.take_append_of_le_length (by rw [List.length_drop]; omega), place]

theorem Stored.append {content : Bytes} {h : SectionHeader} {raw : Bytes}
    (hstored : Stored content h raw) (rest : Bytes) : Stored (content ++ rest) h raw := by
  obtain ⟨hplace, hholds⟩ := hstored
  refine ⟨by rw [List.length_append]; omega, fun index => ?_⟩
  rw [contained, place_append hplace]
  exact hholds index

theorem Holds.valid_flags {content : Bytes} {h : SectionHeader} {raw : Bytes}
    (hholds : Holds content h raw) : Flags.Valid h.flags :=
  (decode_eq_ok_iff.1 (hholds.decode_place 0).2).1

theorem read_of_seek_error {s s' : Storage} {h : SectionHeader} {f : Fault}
    (hseek : Storage.seek h.pointer.toNat s = .error f s') (index : Nat) :
    read index h s = .error (.io f) s' := by
  simp only [read, readPacked, bind, EStateM.bind, onStorage, hseek]

theorem read_of_read_error {s s' s'' : Storage} {h : SectionHeader} {f : Fault}
    (hseek : Storage.seek h.pointer.toNat s = .ok () s')
    (hread : Storage.read h.csize.toNat s' = .error f s'') (index : Nat) :
    read index h s = .error (.io f) s'' := by
  simp only [read, readPacked, bind, EStateM.bind, onStorage, hseek, hread]

theorem read_of_place {s s' s'' : Storage} {content : Bytes} {h : SectionHeader}
    (hseek : Storage.seek h.pointer.toNat s = .ok () s')
    (hread : Storage.read h.csize.toNat s' = .ok (place content h) s'') (index : Nat) :
    read index h s =
      (ofExcept (contained index content h) : EStateM Error Storage Bytes) s'' := by
  simp only [read, readPacked, bind, EStateM.bind, onStorage_of_ok hseek, onStorage_of_ok hread,
    contained]
  by_cases hlength : (place content h).length ≠ h.csize.toNat
  · simp only [if_pos hlength]
    rfl
  · simp only [if_neg hlength]
    cases hdecode : decode index h (place content h) with
    | ok raw => simp only [pure, EStateM.pure, hdecode]; rfl
    | error e => simp only [pure, EStateM.pure, hdecode]; rfl

/-- Reading a section gives what its place holds, and moves only the cursor. -/
theorem read_eq {s : Storage} (hs : s.Readable) {h : SectionHeader}
    (hreach : s.Reaches h.pointer.toNat) (index : Nat) :
    ∃ position, read index h s =
      (ofExcept (contained index s.content h) : EStateM Error Storage Bytes)
        { s with position } := by
  have hread : Storage.refuses { s with position := h.pointer.toNat } .read = none := hs.read
  exact ⟨_, read_of_place (Storage.seek_eq hs.seek hreach) (Storage.read_eq hread _) index⟩

/-- Whatever the storage refuses, reading a section moves only the cursor, and what it gives is
held in the section's place. It fails when that place holds no payload or when it is refused. -/
theorem read_cases (index : Nat) (h : SectionHeader) (s : Storage) :
    (∃ raw s', read index h s = .ok raw s' ∧ s.Moved s' ∧ Holds s.content h raw) ∨
      ∃ e s', read index h s = .error e s' ∧ s.Moved s' ∧
        (contained index s.content h = .error e ∨ ∃ op f, s.refuses op = some f ∧ e = .io f) := by
  rcases Storage.seek_cases h.pointer.toNat s with hseek | ⟨op, f, hrefused, hseek⟩
  · rcases Storage.read_cases h.csize.toNat { s with position := h.pointer.toNat } with
      ⟨position, hread⟩ | ⟨f, hrefused, hread⟩
    · have heq := read_of_place hseek hread index
      cases hcontained : contained index s.content h with
      | ok raw =>
        rw [hcontained] at heq
        exact .inl ⟨raw, _, heq, ⟨position, rfl⟩, contained_eq_ok_iff.1 hcontained⟩
      | error e =>
        rw [hcontained] at heq
        exact .inr ⟨e, _, heq, ⟨position, rfl⟩, .inl rfl⟩
    · exact .inr ⟨.io f, _, read_of_read_error hseek hread index, ⟨h.pointer.toNat, rfl⟩,
        .inr ⟨.read, f, hrefused, rfl⟩⟩
  · exact .inr ⟨.io f, s, read_of_seek_error hseek index, .refl s, .inr ⟨op, f, hrefused, rfl⟩⟩

/-! ### Streaming -/

section

variable {σ : Type} {w : Writer σ} {P : σ → Bytes → Prop} {R : σ → Bytes → σ → Prop}

/-- The meter forwarded these bytes to a writer that tells by `R` what it took. -/
def Meter.Forwarded (R : σ → Bytes → σ → Prop) (m : Meter σ) (data : Bytes) (m' : Meter σ) : Prop :=
  R m.inner data m'.inner ∧ m'.running = m.running.push data ∧
    m'.count = m.count + data.length ∧ m'.limit = m.limit

theorem Meter.Forwarded.of_nil {m : Meter σ} {inner : σ} (h : R m.inner [] inner) :
    Meter.Forwarded R m [] { m with inner } :=
  ⟨h, (Checksum.Running.push_nil _).symm, rfl, rfl⟩

theorem Meter.Forwarded.append
    (happend : ∀ {s s' s'' a b}, R s a s' → R s' b s'' → R s (a ++ b) s'') {m m' m'' : Meter σ}
    {a b : Bytes} (h : Meter.Forwarded R m a m') (h' : Meter.Forwarded R m' b m'') :
    Meter.Forwarded R m (a ++ b) m'' := by
  obtain ⟨hinner, hrunning, hcount, hlimit⟩ := h
  obtain ⟨hinner', hrunning', hcount', hlimit'⟩ := h'
  refine ⟨happend hinner hinner', ?_, ?_, hlimit'.trans hlimit⟩
  · rw [hrunning', hrunning, Checksum.Running.push_append]
  · rw [hcount', hcount, List.length_append, Nat.add_assoc]

/-- A meter goes on taking bytes as long as its writer does and the limit is not passed. -/
theorem Meter.accepts_write (hw : w.Accepts P R) : Writer.Accepts (Meter.write w)
    (fun m data => P m.inner data ∧ m.count + data.length ≤ m.limit) (Meter.Forwarded R) where
  nil m := .of_nil (hw.nil m.inner)
  append h h' := h.append hw.append h'
  step := by
    intro m data rest hdata hm
    obtain ⟨htakes, hfits⟩ := hm
    rw [List.length_append] at hfits
    obtain ⟨n, inner, hpos, hle, hwrite, htook, hmore⟩ := hw.step hdata htakes
    have hlength : (data.take n).length = n := by
      rw [List.length_take]
      omega
    refine ⟨n, { m with inner, running := m.running.push (data.take n), count := m.count + n },
      hpos, hle, ?_, ⟨htook, rfl, by rw [hlength], rfl⟩, hmore, ?_⟩
    · rw [Meter.write, if_neg (by omega), hwrite]
    · simp only [List.length_append, List.length_drop]
      omega

/-- A delivery of the announced size is handed on whole; then its checksum decides. -/
theorem forward_of_complete (hw : w.Accepts P R) {h : SectionHeader} {method : Option Method}
    {source : Source} (hfailure : (Delivery.unpack method source).failure = none)
    (hlength : (Delivery.unpack method source).output.length = h.size.toNat) {sink : σ}
    (hsink : P sink (Delivery.unpack method source).output) (index : Nat) (kind : Checksum.Kind) :
    ∃ sink', R sink (Delivery.unpack method source).output sink' ∧
      forward index h method kind source w sink =
        match check index kind h.checksum
            (Checksum.checksum kind (Delivery.unpack method source).output) with
        | .error e => .error e sink'
        | .ok () => .ok h.size.toNat sink' := by
  obtain ⟨m, hwrite, htook, hrunning, hcount, -⟩ := (Meter.accepts_write hw).writePieces
    (s := { inner := sink, running := kind.start, limit := h.size.toNat })
    (Delivery.unpack method source).pieces
    ⟨hsink, by rw [← Delivery.output, hlength, Nat.zero_add]⟩
  rw [← Delivery.output] at htook hrunning hcount
  have hall : m.count = h.size.toNat := by rw [hcount, hlength, Nat.zero_add]
  have hsum : m.running.finish =
      Checksum.checksum kind (Delivery.unpack method source).output := by
    rw [hrunning]
    rfl
  refine ⟨m.inner, htook, ?_⟩
  cases hcheck : check index kind h.checksum
      (Checksum.checksum kind (Delivery.unpack method source).output) <;>
    simp only [forward, Codec.decompressStream, Codec.asError, Codec.forward, hwrite, hfailure,
      hall, ne_eq, not_true_eq_false, if_false, hsum, hcheck]

end

/-- A payload that ends behind the content is refused. -/
theorem locate_of_lt {s : Storage} (hs : s.Readable) {h : SectionHeader}
    (hstop : s.content.length < h.stop.toNat) :
    locate h s =
      .error (.io (.truncatedPayload (s.content.length - h.pointer.toNat) h.csize.toNat))
        { s with position := s.content.length } := by
  simp only [locate, bind, EStateM.bind, onStorage_of_ok (Storage.seekEnd_eq hs.seek), if_pos hstop]
  rfl

theorem locate_of_le {s : Storage} (hs : s.Readable) {h : SectionHeader}
    (hstop : h.stop.toNat ≤ s.content.length) :
    ∃ position, locate h s = .ok (.buffered (place s.content h)) { s with position } := by
  have hseek : ∀ position, Storage.refuses { s with position } .seek = none := fun _ => hs.seek
  have hreach : ∀ position, Storage.Reaches { s with position } h.pointer.toNat := fun _ =>
    Storage.reaches_of_le (h.pointer_le_stop.trans hstop)
  have hread : ∀ position, Storage.refuses { s with position } .read = none := fun _ => hs.read
  refine ⟨h.pointer.toNat + (place s.content h).length, ?_⟩
  simp only [locate, bind, EStateM.bind, onStorage_of_ok (Storage.seekEnd_eq hs.seek),
    if_neg (Nat.not_lt.2 hstop), onStorage_of_ok (Storage.seek_eq (hseek _) (hreach _)),
    Storage.read_eq (hread _)]
  rfl

theorem locate_eq {s : Storage} (hs : s.Readable) {h : SectionHeader}
    (hplace : h.pointer.toNat + h.csize.toNat ≤ s.content.length) :
    ∃ position, locate h s = .ok (.buffered (place s.content h)) { s with position } := by
  apply locate_of_le hs
  rw [SectionHeader.toNat_stop]
  omega

/-- Whatever the storage refuses, going to a payload moves only the cursor, and what is then read is
the section's place, or nothing behind which reading fails. -/
theorem locate_cases (h : SectionHeader) (s : Storage) :
    (∃ source s', locate h s = .ok source s' ∧ s.Moved s' ∧
        (source = .buffered (place s.content h) ∨
          ∃ f, source = { data := [], slice := Source.defaultSlice, failure := some f })) ∨
      ∃ f s', locate h s = .error (.io f) s' ∧ s.Moved s' := by
  cases hseek : s.refuses .seek with
  | some f =>
    refine .inr ⟨f, s, ?_, .refl s⟩
    simp only [locate, bind, EStateM.bind, onStorage, Storage.seekEnd, Storage.ask_of_refused hseek]
  | none =>
    have hseek' : Storage.refuses { s with position := s.content.length } .seek = none := hseek
    by_cases hstop : s.content.length < h.stop.toNat
    · refine .inr ⟨.truncatedPayload (s.content.length - h.pointer.toNat) h.csize.toNat, _, ?_,
        s.content.length, rfl⟩
      simp only [locate, bind, EStateM.bind, onStorage_of_ok (Storage.seekEnd_eq hseek),
        if_pos hstop]
      rfl
    · have hreach : Storage.Reaches { s with position := s.content.length } h.pointer.toNat :=
        Storage.reaches_of_le (h.pointer_le_stop.trans (Nat.not_lt.1 hstop))
      simp only [locate, bind, EStateM.bind, onStorage_of_ok (Storage.seekEnd_eq hseek),
        if_neg hstop, onStorage_of_ok (Storage.seek_eq hseek' hreach)]
      rcases Storage.read_cases h.csize.toNat { s with position := h.pointer.toNat } with
        ⟨position, hread⟩ | ⟨f, -, hread⟩
      · refine .inl ⟨_, _, ?_, ⟨position, rfl⟩, .inl rfl⟩
        rw [hread]
        rfl
      · refine .inl ⟨_, _, ?_, ⟨h.pointer.toNat, rfl⟩, .inr ⟨f, rfl⟩⟩
        rw [hread]

/-- Whatever storage and sink refuse, streaming a section moves only the cursor of the storage. -/
theorem stream_cases {σ : Type} (index : Nat) (h : SectionHeader) (w : Writer σ) (s : Storage)
    (sink : σ) :
    (∃ n s' sink', stream index h w (s, sink) = .ok n (s', sink') ∧ s.Moved s') ∨
      ∃ e s' sink', stream index h w (s, sink) = .error e (s', sink') ∧ s.Moved s' := by
  cases hselection : h.selection index with
  | error e => exact .inr ⟨e, s, sink, by simp only [stream, hselection], .refl s⟩
  | ok r =>
    rcases locate_cases h s with ⟨source, s', hlocate, hmoved, -⟩ | ⟨f, s', hlocate, hmoved⟩
    · simp only [stream, hselection, hlocate]
      cases forward index h r.1 r.2 source w sink with
      | ok n sink' => exact .inl ⟨n, s', sink', rfl, hmoved⟩
      | error e sink' => exact .inr ⟨e, s', sink', rfl, hmoved⟩
    · exact .inr ⟨.io f, s', sink, by simp only [stream, hselection, hlocate], hmoved⟩

/-- Forwarding a whole payload through the meter passes every comparison at its end. -/
theorem forward_eq {h : SectionHeader} {method : Option Method} {kind : Checksum.Kind}
    {source : Source} {raw : Bytes} (hdelivery : Delivery.unpack method source = .ofBytes raw none)
    (hlength : raw.length = h.size.toNat)
    (hsum : kind = .none ∨ h.checksum = Checksum.checksum kind raw) {sink : Sink}
    (hsink : sink.Accepting) (index : Nat) :
    ∃ sink', forward index h method kind source Sink.write sink = .ok raw.length sink' ∧
      Sink.Received sink raw sink' := by
  have houtput : (Delivery.unpack method source).output = raw := by
    rw [hdelivery, Delivery.output_ofBytes]
  obtain ⟨sink', hreceived, hforward⟩ := forward_of_complete Sink.accepts_write
    (by rw [hdelivery]; rfl) (by rw [houtput, hlength]) hsink index kind
  rw [houtput] at hreceived hforward
  refine ⟨sink', ?_, hreceived⟩
  rw [hforward, check_of_match hsum, hlength]

/-- Streaming a section sends what its place holds. -/
theorem stream_eq {s : Storage} (hs : s.Readable) {h : SectionHeader} {raw : Bytes}
    (hstored : Stored s.content h raw) {sink : Sink} (hsink : sink.Accepting) (index : Nat) :
    ∃ position sink', stream index h Sink.write (s, sink) =
        .ok raw.length ({ s with position }, sink') ∧ Sink.Received sink raw sink' := by
  obtain ⟨hplace, hholds⟩ := hstored
  obtain ⟨hflags, hraw, hsum⟩ := decode_eq_ok_iff.1 (hholds.decode_place index).2
  obtain ⟨hlength, hdelivery⟩ := Codec.unpack_of_decompress hraw Source.defaultSlice
  obtain ⟨position, hlocate⟩ := locate_eq hs hplace
  obtain ⟨sink', hforward, hreceived⟩ := forward_eq hdelivery hlength hsum hsink index
  refine ⟨position, sink', ?_, hreceived⟩
  simp only [stream, SectionHeader.selection_of_valid hflags, hlocate, Source.buffered, hforward]

end Section

end SectionArchive
