import Mathlib
import SectionArchive.Proofs.Operations
/-!
Reading and streaming. A payload that is read is unpacked from one piece into a bounded buffer, one
that is streamed is unpacked from slices through a meter. What a broken stream delivers before it
breaks depends on the slices, but not whether it breaks; so both ways give the same payload, or fail
with the same code.
-/

namespace SectionArchive

/-- Both ways to a payload come to the same: what one gives as a value the other counts and adds to
what a writer received, or both fail with the same code and, over a checksum, with the same error. -/
structure Agree (whole : Except Error Bytes) (streamed : Except Error Nat)
    (before behind : Bytes) : Prop where
  payload : ∀ raw, whole = .ok raw ↔ streamed = .ok raw.length ∧ behind = before ++ raw
  failure : ∀ e, whole = .error e →
    ∃ e', streamed = .error e' ∧ e'.code = e.code ∧ (e.code = .checksum → e' = e)

theorem Agree.of_payload {before behind raw : Bytes} {n : Nat} (hn : n = raw.length)
    (h : behind = before ++ raw) : Agree (.ok raw) (.ok n) before behind := by
  subst hn h
  refine ⟨fun raw' => ?_, fun e he => by cases he⟩
  rw [List.append_cancel_left_eq, Except.ok.injEq, Except.ok.injEq]
  constructor
  · rintro rfl
    exact ⟨rfl, rfl⟩
  · exact fun h => h.2

theorem Agree.of_failure {e e' : Error} (hcode : e'.code = e.code)
    (hsum : e.code = .checksum → e' = e) (before behind : Bytes) :
    Agree (.error e) (.error e') before behind := by
  constructor
  · intro raw
    constructor
    · intro h
      cases h
    · intro h
      cases h.1
  · intro f hf
    cases hf
    exact ⟨e', rfl, hcode, hsum⟩

/-- Failures of unpacking agree whatever they are. -/
theorem Agree.of_inflate {e e' : Error} (h : e.code = .inflate) (h' : e'.code = .inflate)
    (before behind : Bytes) : Agree (.error e) (.error e') before behind :=
  .of_failure (h'.trans h.symm) (fun hsum => by rw [h] at hsum; cases hsum) before behind

namespace Writer

variable {σ : Type} {w : Writer σ} {able : σ → Prop} {received : σ → Bytes}

/-- While it is `able` to, the writer takes at least a byte of whatever it is offered, and stays
able; `received` is what it took so far. -/
def Willing (w : Writer σ) (able : σ → Prop) (received : σ → Bytes) : Prop :=
  ∀ data s, data ≠ [] → able s → ∃ n s', 0 < n ∧ n ≤ data.length ∧ w data s = .ok n s' ∧
    received s' = received s ++ data.take n ∧ able s'

theorem Willing.accepts (hw : w.Willing able received) :
    w.Accepts (fun s _ => able s) (fun s data s' => received s' = received s ++ data) where
  nil s := (List.append_nil _).symm
  append h h' := by rw [h', h, List.append_assoc]
  step {s data _} hdata hs := hw data s hdata hs

end Writer

theorem Sink.willing_write : Writer.Willing Sink.write Sink.Accepting Sink.bytes := by
  intro data s hdata hs
  obtain ⟨n, s', hpos, hle, hwrite, hreceived⟩ := Accepting.write hs hdata
  refine ⟨n, s', hpos, hle, hwrite, hreceived.bytes_eq, ?_⟩
  rw [Accepting, hreceived.1]
  exact hs

/-- However a source is cut, it fails with the same fault if it fails. -/
theorem Delivery.failure_unpack (method : Option Method) (bs : Bytes) (slice slice' : Nat) :
    (unpack method { data := bs, slice }).failure =
      (unpack method { data := bs, slice := slice' }).failure := by
  cases method with
  | none => simp only [unpack, stored, ofBytes]
  | some method =>
    cases method with
    | zlib =>
      simp only [unpack, zlib]
      cases (Zlib.decode bs).stop with
      | none => simp only [ofBytes]
      | some stop => cases stop <;> simp only [ofBytes]
    | xz =>
      simp only [unpack, xz]
      cases (Xz.decode bs).stop with
      | none => simp only [ofBytes]
      | some stop => cases stop <;> simp only [ofBytes]

def Delivery.fitting : (limit : Nat) → (pieces : List Bytes) → List Bytes
  | _, [] => []
  | limit, p :: rest => if p.length ≤ limit then p :: fitting (limit - p.length) rest else []

theorem Delivery.fitting_of_le {pieces : List Bytes} {limit : Nat}
    (h : pieces.flatten.length ≤ limit) : fitting limit pieces = pieces := by
  induction pieces generalizing limit with
  | nil => rfl
  | cons p rest ih =>
    rw [List.flatten_cons, List.length_append] at h
    unfold fitting
    rw [if_pos (by omega), ih (by omega)]

/-- What of a delivery passes a meter with this limit. -/
def Delivery.passed (d : Delivery) (limit : Nat) : Bytes := (fitting limit d.pieces).flatten

theorem Delivery.passed_of_le {d : Delivery} {limit : Nat} (h : d.output.length ≤ limit) :
    d.passed limit = d.output := congrArg List.flatten (fitting_of_le h)

namespace Section

def Complete (d : Delivery) (size : Nat) : Prop := d.failure = none ∧ d.output.length = size

/-- However a source is cut, it is complete or not, and if it is, it delivers the same. -/
theorem complete_unpack {method : Option Method} {bs : Bytes} {size : Nat}
    (h : Complete (.unpack method (.whole bs)) size) (slice : Nat) :
    Complete (.unpack method { data := bs, slice }) size ∧
      (Delivery.unpack method { data := bs, slice }).output =
        (Delivery.unpack method (.whole bs)).output := by
  have hsame := Delivery.unpack_eq_of_failure_eq_none h.1 slice
  have houtput : (Delivery.unpack method { data := bs, slice }).output =
      (Delivery.unpack method (.whole bs)).output := by
    rw [hsame, Delivery.output_ofBytes]
  exact ⟨⟨by rw [hsame]; rfl, by rw [houtput]; exact h.2⟩, houtput⟩

theorem complete_unpack_whole {method : Option Method} {bs : Bytes} {size slice : Nat}
    (h : Complete (.unpack method { data := bs, slice }) size) :
    Complete (.unpack method (.whole bs)) size := by
  have hfailure : (Delivery.unpack method (.whole bs)).failure = none := by
    rw [← h.1]
    exact Delivery.failure_unpack method bs bs.length slice
  obtain ⟨hcomplete, houtput⟩ := complete_unpack ⟨hfailure, rfl⟩ slice
  exact ⟨hfailure, by rw [← houtput]; exact h.2⟩

/-! ### Reading -/

theorem answer_read {s : Storage} (hs : s.FaultFree) (index : Nat) (h : SectionHeader) :
    answer (read index h s) = contained index s.content h := by
  obtain ⟨position, hread⟩ := read_eq hs.readable (hs.reaches h.pointer.toNat) index
  rw [hread]
  cases contained index s.content h <;> rfl

theorem decode_of_complete {h : SectionHeader} {packed : Bytes} {index : Nat}
    {method : Option Method} {kind : Checksum.Kind} (hsel : h.selection index = .ok (method, kind))
    (hcomplete : Complete (.unpack method (.whole packed)) h.size.toNat) :
    decode index h packed =
      match check index kind h.checksum
          (Checksum.checksum kind (Delivery.unpack method (.whole packed)).output) with
      | .error e => .error e
      | .ok () => .ok (Delivery.unpack method (.whole packed)).output := by
  obtain ⟨hfailure, hlength⟩ := hcomplete
  simp only [decode, hsel, bind, Except.bind, Codec.decompress_eq_delivery, hlength, Nat.lt_irrefl,
    if_false, hfailure]
  cases check index kind h.checksum
    (Checksum.checksum kind (Delivery.unpack method (.whole packed)).output) <;> rfl

theorem decode_of_not_complete {h : SectionHeader} {packed : Bytes} {index : Nat}
    {method : Option Method} {kind : Checksum.Kind} (hsel : h.selection index = .ok (method, kind))
    (hcomplete : ¬ Complete (.unpack method (.whole packed)) h.size.toNat) :
    ∃ e, decode index h packed = .error e ∧ e.code = .inflate := by
  simp only [decode, hsel, bind, Except.bind, Codec.decompress_eq_delivery]
  by_cases hover : h.size.toNat < (Delivery.unpack method (.whole packed)).output.length
  · rw [if_pos hover]
    exact ⟨_, rfl, rfl⟩
  · rw [if_neg hover]
    cases hfailure : (Delivery.unpack method (.whole packed)).failure with
    | some f => exact ⟨_, rfl, rfl⟩
    | none =>
      have hshort : (Delivery.unpack method (.whole packed)).output.length < h.size.toNat := by
        by_contra hle
        exact hcomplete ⟨hfailure, by omega⟩
      simp only [if_pos hshort]
      exact ⟨_, rfl, rfl⟩

/-! ### Streaming -/

variable {σ : Type} {w : Writer σ} {able : σ → Prop} {received : σ → Bytes}

/-- A meter refuses what passes its limit, and the pieces that fit have gone by then. -/
theorem Meter.writePieces_of_lt (hw : w.Willing able received) (pieces : List Bytes) (m : Meter σ)
    (hm : able m.inner) (h : m.limit < m.count + pieces.flatten.length)
    (hfits : m.count ≤ m.limit) :
    ∃ m', (Meter.write w).writePieces pieces m = .error .oversized m' ∧ received m'.inner =
      received m.inner ++ (Delivery.fitting (m.limit - m.count) pieces).flatten := by
  induction pieces generalizing m with
  | nil =>
    simp only [List.flatten_nil, List.length_nil] at h
    omega
  | cons p rest ih =>
    rw [List.flatten_cons, List.length_append] at h
    unfold Delivery.fitting
    by_cases hp : m.count + p.length ≤ m.limit
    · obtain ⟨m', hwrite, ⟨htook, -, hcount, hlimit⟩, hm', -⟩ :=
        (Meter.accepts_write hw.accepts).writeAll (s := m) p [] ⟨hm, by simpa using hp⟩
      obtain ⟨m'', hrest, hreceived⟩ := ih m' hm' (by omega) (by omega)
      have hroom : m'.limit - m'.count = m.limit - m.count - p.length := by omega
      refine ⟨m'', by rw [Writer.writePieces_cons_of_ok hwrite, hrest], ?_⟩
      rw [hreceived, htook, hroom, if_pos (by omega), List.flatten_cons, List.append_assoc]
    · have hne : p ≠ [] := by
        rintro rfl
        exact hp (by simpa using hfits)
      have hwrite : Meter.write w p m = .error .oversized m := by
        rw [Meter.write, if_pos (by omega)]
      refine ⟨m, Writer.writePieces_cons_of_error (Writer.writeAll_of_error hne hwrite), ?_⟩
      rw [if_neg (by omega), List.flatten_nil, List.append_nil]

theorem forward_of_not_complete (hw : w.Willing able received) {h : SectionHeader}
    {method : Option Method} {source : Source}
    (hcomplete : ¬ Complete (.unpack method source) h.size.toNat) {sink : σ} (hsink : able sink)
    (index : Nat) (kind : Checksum.Kind) :
    ∃ e sink', forward index h method kind source w sink = .error e sink' ∧ e.code = .inflate ∧
      received sink' = received sink ++ (Delivery.unpack method source).passed h.size.toNat := by
  simp only [forward, Codec.decompressStream, Codec.asError, Codec.forward]
  by_cases hover : h.size.toNat < (Delivery.unpack method source).output.length
  · obtain ⟨m, hwrite, hreceived⟩ := Meter.writePieces_of_lt hw
      (Delivery.unpack method source).pieces
      { inner := sink, running := kind.start, limit := h.size.toNat } hsink
      (by simpa [Delivery.output] using hover) (Nat.zero_le _)
    simp only [hwrite]
    exact ⟨_, _, rfl, rfl, hreceived⟩
  · obtain ⟨m, hwrite, htook, -, hcount, -⟩ := (Meter.accepts_write hw.accepts).writePieces
      (s := { inner := sink, running := kind.start, limit := h.size.toNat })
      (Delivery.unpack method source).pieces
      ⟨hsink, by simpa [Delivery.output] using hover⟩
    rw [← Delivery.output, Nat.zero_add] at hcount
    rw [← Delivery.output, ← Delivery.passed_of_le (Nat.not_lt.1 hover)] at htook
    simp only [hwrite]
    cases hfailure : (Delivery.unpack method source).failure with
    | some f => exact ⟨_, _, rfl, rfl, htook⟩
    | none =>
      have hshort : m.count ≠ h.size.toNat := by
        rw [hcount]
        exact fun hlength => hcomplete ⟨hfailure, hlength⟩
      simp only [ne_eq, hshort, not_false_eq_true, if_true]
      exact ⟨_, _, rfl, rfl, htook⟩

/-- Unpacking a place into a writer agrees with unpacking it whole. -/
theorem forward_agrees (hw : w.Willing able received) {h : SectionHeader} {index : Nat}
    {method : Option Method} {kind : Checksum.Kind} (hsel : h.selection index = .ok (method, kind))
    (packed : Bytes) (slice : Nat) {sink : σ} (hsink : able sink) :
    Agree (decode index h packed)
      (answer (forward index h method kind { data := packed, slice } w sink)) (received sink)
      (received (Container.after (forward index h method kind { data := packed, slice } w sink))) := by
  by_cases hcomplete : Complete (.unpack method (.whole packed)) h.size.toNat
  · obtain ⟨hcomplete', houtput⟩ := complete_unpack hcomplete slice
    obtain ⟨sink', htook, hforward⟩ := forward_of_complete hw.accepts hcomplete'.1 hcomplete'.2
      hsink index kind
    rw [houtput] at htook hforward
    rw [decode_of_complete hsel hcomplete, hforward]
    cases check index kind h.checksum
        (Checksum.checksum kind (Delivery.unpack method (.whole packed)).output) with
    | error e => exact .of_failure rfl (fun _ => rfl) _ _
    | ok u => exact .of_payload hcomplete.2.symm htook
  · have hcomplete' : ¬ Complete (.unpack method { data := packed, slice }) h.size.toNat :=
      fun h => hcomplete (complete_unpack_whole h)
    obtain ⟨e, hdecode, hcode⟩ := decode_of_not_complete hsel hcomplete
    obtain ⟨e', sink', hforward, hcode', -⟩ :=
      forward_of_not_complete hw hcomplete' hsink index kind
    rw [hdecode, hforward]
    exact .of_inflate hcode hcode' _ _

/-- Streaming a section whose place lies inside the storage agrees with reading it. -/
theorem stream_agrees (hw : w.Willing able received) {s : Storage} (hs : s.FaultFree)
    {h : SectionHeader} (hplace : h.pointer.toNat + h.csize.toNat ≤ s.content.length)
    (index : Nat) {sink : σ} (hsink : able sink) :
    Agree (answer (read index h s)) (answer (stream index h w (s, sink))) (received sink)
      (received (Container.after (stream index h w (s, sink))).2) := by
  have hlength : ¬ (place s.content h).length ≠ h.csize.toNat := by
    simp only [place, List.length_take, List.length_drop]
    omega
  rw [answer_read hs, contained, if_neg hlength]
  cases hsel : h.selection index with
  | error e =>
    simp only [stream, hsel, decode, bind, Except.bind]
    exact .of_failure rfl (fun _ => rfl) _ _
  | ok r =>
    obtain ⟨method, kind⟩ := r
    obtain ⟨position', hlocate⟩ := locate_eq hs.readable hplace
    have hagree := forward_agrees hw hsel (place s.content h) Source.defaultSlice hsink
    simp only [stream, hsel, hlocate, Source.buffered]
    cases hforward : forward index h method kind
        { data := place s.content h, slice := Source.defaultSlice } w sink with
    | ok n sink' => rwa [hforward] at hagree
    | error e sink' => rwa [hforward] at hagree

end Section

namespace Container

variable {σ : Type} {w : Writer σ} {able : σ → Prop} {received : σ → Bytes} {c : Container}
  {i : Nat} {e : Entry}

theorem answer_read_of_unloaded (hi : c.directory.entries[i]? = some e) (hnone : e.payload = none) :
    answer (read i c) = answer (Section.read i e.header c.storage) := by
  rw [read_eq, load_eq, hi]
  simp only [hnone]
  cases Section.read i e.header c.storage <;> rfl

/-- Reading a section gives what its place holds. -/
theorem answer_read_of_holds (hs : c.storage.FaultFree) (hi : c.directory.entries[i]? = some e)
    (hnone : e.payload = none) {raw : Bytes}
    (hholds : Section.Holds c.storage.content e.header raw) : answer (read i c) = .ok raw := by
  rw [answer_read_of_unloaded hi hnone, Section.answer_read hs, hholds i]

theorem copy_of_unloaded (hi : c.directory.entries[i]? = some e) (hnone : e.payload = none)
    (w : Writer σ) (sink : σ) :
    answer (copy i w (c, sink)) = answer (Section.stream i e.header w (c.storage, sink)) ∧
      after (copy i w (c, sink)) =
        ({ c with storage := (after (Section.stream i e.header w (c.storage, sink))).1 },
          (after (Section.stream i e.header w (c.storage, sink))).2) := by
  rw [copy_eq, hi]
  simp only [hnone]
  cases Section.stream i e.header w (c.storage, sink) <;> exact ⟨rfl, rfl⟩

/-- Copying a section that is not loaded, and whose place lies inside the storage, agrees with
reading it. -/
theorem copy_agrees (hw : w.Willing able received) (hs : c.storage.FaultFree)
    (hi : c.directory.entries[i]? = some e) (hnone : e.payload = none)
    (hplace : e.header.pointer.toNat + e.header.csize.toNat ≤ c.storage.content.length) {sink : σ}
    (hsink : able sink) :
    Agree (answer (read i c)) (answer (copy i w (c, sink))) (received sink)
      (received (after (copy i w (c, sink))).2) := by
  obtain ⟨hanswer, hafter⟩ := copy_of_unloaded hi hnone w sink
  rw [answer_read_of_unloaded hi hnone, hanswer, hafter]
  exact Section.stream_agrees hw hs hplace i hsink

/-- On a storage that refuses nothing, and for a place inside it, streaming agrees with reading,
whatever the bytes and the header are and however little the writer takes at once. So does copying a
section that is not loaded, and it leaves the section as it was. -/
theorem copying_agrees_with_reading (hw : w.Willing able received) :
    (∀ (s : Storage) (h : SectionHeader) (index : Nat) (sink : σ), s.FaultFree → able sink →
      h.pointer.toNat + h.csize.toNat ≤ s.content.length →
      Agree (answer (Section.read index h s)) (answer (Section.stream index h w (s, sink)))
        (received sink) (received (after (Section.stream index h w (s, sink))).2)) ∧
    ∀ (c : Container) (i : Nat) (e : Entry) (sink : σ), c.storage.FaultFree → able sink →
      c.directory.entries[i]? = some e → e.payload = none →
      e.header.pointer.toNat + e.header.csize.toNat ≤ c.storage.content.length →
      Agree (answer (read i c)) (answer (copy i w (c, sink))) (received sink)
          (received (after (copy i w (c, sink))).2) ∧
        ∃ position, (after (copy i w (c, sink))).1 =
          { c with storage := { c.storage with position } } :=
  ⟨fun _ _ index _ hs hsink hplace => Section.stream_agrees hw hs hplace index hsink,
    fun c i _ sink hs hsink hi hnone hplace =>
      ⟨copy_agrees hw hs hi hnone hplace hsink, exists_after_copy i w c sink⟩⟩

/-- For one, a section of three bytes that is copied into a sink that takes two bytes at once. -/
theorem copying_agrees_two_bytes_at_once :
    let h : SectionHeader :=
      { pointer := 1, csize := 3, size := 3, checksum := 0xA0006, flags := 0x8 }
    let c : Container :=
      { storage := { content := [9, 1, 2, 3, 9] }, header := .fresh 0 1 (.ofBytes 16 [])
        directory := { entries := [.ofStored h], maxSections := 1 }, modified := false }
    let sink := Sink.bounded none (some 2)
    c.storage.FaultFree ∧ sink.Accepting ∧ c.directory.entries[0]? = some (.ofStored h) ∧
      h.pointer.toNat + h.csize.toNat ≤ c.storage.content.length ∧
      Agree (answer (Section.read 0 h c.storage))
        (answer (Section.stream 0 h Sink.write (c.storage, sink))) sink.bytes
        (after (Section.stream 0 h Sink.write (c.storage, sink))).2.bytes ∧
      Agree (answer (read 0 c)) (answer (copy 0 Sink.write (c, sink))) sink.bytes
        (after (copy 0 Sink.write (c, sink))).2.bytes ∧
      ∃ position, (after (copy 0 Sink.write (c, sink))).1 =
        { c with storage := { c.storage with position } } := by
  intro h c sink
  have hfree : c.storage.FaultFree := fun _ => rfl
  have hsink : sink.Accepting := by
    intro calls total offered hpos
    refine ⟨min offered 2, by omega, rfl⟩
  have hplace : h.pointer.toNat + h.csize.toNat ≤ c.storage.content.length := by decide
  obtain ⟨hstream, hcopy⟩ := copying_agrees_with_reading Sink.willing_write
  exact ⟨hfree, hsink, rfl, hplace, hstream c.storage h 0 sink hfree hsink hplace,
    hcopy c 0 _ sink hfree hsink rfl rfl hplace⟩

end Container

end SectionArchive
