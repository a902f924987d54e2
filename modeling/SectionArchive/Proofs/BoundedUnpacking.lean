import Mathlib
import SectionArchive.Proofs.StreamSoundness
import SectionArchive.Proofs.Wrapping
/-!
Unpacking into a bounded buffer and unpacking into a writer that takes everything. The buffer
refuses what would pass its limit and marks that it did, and the mark outweighs whatever the run
then fails with. So the buffer's answer depends on how much is delivered in all and on how the
delivery ends, and not on the pieces it comes in; and no request leaves more in the buffer than its
limit.
-/

namespace SectionArchive

/-! ### Recorded runs -/

namespace Writer

variable {σ : Type} {w : Writer σ} {good : σ → Prop}

/-- The writer, which also puts aside the states it was in, the latest first. -/
def recorded (w : Writer σ) : Writer (List σ × σ) := fun data (past, s) =>
  match w data s with
  | .ok n s' => .ok n (s :: past, s')
  | .error f s' => .error f (s :: past, s')

def visited {ε α : Type} : EStateM.Result ε (List σ × σ) α → List σ
  | .ok _ (past, s) => s :: past
  | .error _ (past, s) => s :: past

/-- Recording does not change a run. -/
theorem wraps_recorded (w : Writer σ) : (recorded w).Wraps w Prod.snd fun _ _ => True where
  same {t data rest} _ _ := by
    simp only [recorded]
    cases w data t.2 <;> rfl
  keeps _ _ := trivial

/-- What each request keeps holds of all recorded states. -/
theorem Accounts.recorded (hw : w.Accounts fun s _ s' => good s → good s') :
    (recorded w).Accounts fun t _ t' =>
      (∀ s ∈ t.2 :: t.1, good s) → ∀ s ∈ t'.2 :: t'.1, good s where
  nil _ := id
  append h h' := h' ∘ h
  took := by
    intro data t n t' hwrite
    simp only [Writer.recorded] at hwrite
    cases hinner : w data t.2 with
    | error f s' =>
      rw [hinner] at hwrite
      cases hwrite
    | ok k s' =>
      rw [hinner] at hwrite
      cases hwrite
      obtain ⟨hle, hkeeps⟩ := hw.took hinner
      exact ⟨hle, fun hgood => List.forall_mem_cons.2
        ⟨hkeeps (hgood _ List.mem_cons_self), hgood⟩⟩
  failed := by
    intro data t f t' hwrite
    simp only [Writer.recorded] at hwrite
    cases hinner : w data t.2 with
    | error f s' =>
      rw [hinner] at hwrite
      cases hwrite
      exact fun hgood => List.forall_mem_cons.2
        ⟨hw.failed hinner (hgood _ List.mem_cons_self), hgood⟩
    | ok k s' =>
      rw [hinner] at hwrite
      cases hwrite

end Writer

namespace Codec

variable {expected : Nat} {d : Delivery}

/-! ### The buffer's limit -/

def Buffer.Within (limit : Nat) (b : Buffer) : Prop := b.limit = limit ∧ b.bytes.size ≤ limit

/-- A request leaves the limit as it is and the buffer within it, whether it is met or refused. -/
theorem Buffer.accounts_write (limit : Nat) :
    Writer.Accounts Buffer.write fun b _ b' => b.Within limit → b'.Within limit where
  nil _ := id
  append h h' := h' ∘ h
  took := by
    intro data b n b' hwrite
    unfold Buffer.write at hwrite
    by_cases hover : b.limit < b.bytes.size + data.length
    · rw [if_pos hover] at hwrite
      cases hwrite
    · rw [if_neg hover] at hwrite
      cases hwrite
      refine ⟨Nat.le_refl _, ?_⟩
      rintro ⟨hlimit, -⟩
      refine ⟨hlimit, ?_⟩
      simp only [size_append_bytes]
      omega
  failed := by
    intro data b f b' hwrite
    unfold Buffer.write at hwrite
    by_cases hover : b.limit < b.bytes.size + data.length
    · rw [if_pos hover] at hwrite
      cases hwrite
      exact id
    · rw [if_neg hover] at hwrite
      cases hwrite

/-- At no point of a run is there more in the buffer than its limit. -/
theorem within_of_visited (method : Option Method) (source : Source) (limit : Nat) :
    ∀ b ∈ Writer.visited (decompressStream method source (Writer.recorded Buffer.write)
      ([], { limit })), b.Within limit := by
  have hwritten := (Buffer.accounts_write limit).recorded.writePieces
    (Delivery.unpack method source).pieces ([], { limit })
  have hempty : ∀ b ∈ [({ limit } : Buffer)], b.Within limit := by
    intro b hb
    rw [List.mem_singleton.1 hb]
    exact ⟨rfl, Nat.zero_le _⟩
  simp only [decompressStream, asError, forward]
  cases hrun : (Writer.recorded Buffer.write).writePieces (Delivery.unpack method source).pieces
      ([], { limit }) with
  | error f t =>
    rw [hrun] at hwritten
    cases hwritten with
    | part taken hbegins htook => exact htook hempty
  | ok u t =>
    rw [hrun] at hwritten
    cases hwritten with
    | all htook =>
      cases (Delivery.unpack method source).failure with
      | some f => exact htook hempty
      | none => exact htook hempty

/-! ### Both answers -/

/-- How a stream answers that was delivered to a writer which took all of it. -/
def streamed (d : Delivery) : Except CodecError Unit :=
  match d.failure with
  | some f => .error (.decompression f)
  | none => .ok ()

theorem decompressStream_of_willing {σ : Type} {w : Writer σ} {able : σ → Prop}
    {received : σ → Bytes} (hw : w.Willing able received) (method : Option Method)
    (source : Source) {sink : σ} (hsink : able sink) :
    ∃ sink', decompressStream method source w sink =
        (ofExcept (streamed (.unpack method source)) : EStateM CodecError σ Unit) sink' ∧
      received sink' = received sink ++ (Delivery.unpack method source).output := by
  obtain ⟨sink', hwrite, htook⟩ :=
    hw.accepts.writePieces (Delivery.unpack method source).pieces hsink
  refine ⟨sink', ?_, htook⟩
  simp only [decompressStream, asError, forward, hwrite, streamed]
  cases (Delivery.unpack method source).failure <;> rfl

/-- A bounded answer tells of a stream what its bound allows to tell: the payload if the stream ends
and has the expected size; that there is too much as soon as there is, however the stream goes on;
that there is too little if the stream ends; and the stream's own fault if it fails in time. -/
structure Tells (expected : Nat) (streamed : Except CodecError Unit) (delivered : Bytes)
    (bounded : Except CodecError Bytes) : Prop where
  payload : ∀ raw, bounded = .ok raw ↔
    streamed = .ok () ∧ delivered = raw ∧ raw.length = expected
  tooMuch : bounded = .error (.sizeMismatch expected (expected + 1)) ↔ expected < delivered.length
  tooLittle : ∀ n < expected, bounded = .error (.sizeMismatch expected n) ↔
    streamed = .ok () ∧ delivered.length = n
  broken : ∀ f, bounded = .error (.decompression f) ↔
    streamed = .error (.decompression f) ∧ delivered.length ≤ expected
  nothingElse : ∀ e, bounded = .error e → e = .sizeMismatch expected (expected + 1) ∨
    (∃ n < expected, e = .sizeMismatch expected n) ∨ ∃ f, e = .decompression f

theorem Tells.of_tooMuch {streamed : Except CodecError Unit} {delivered : Bytes}
    (h : expected < delivered.length) :
    Tells expected streamed delivered (.error (.sizeMismatch expected (expected + 1))) where
  payload raw := iff_of_false (by nofun) (by
    rintro ⟨-, rfl, hlength⟩
    omega)
  tooMuch := iff_of_true rfl h
  tooLittle n hn := iff_of_false (by
    intro herror
    cases herror
    omega) (by
    rintro ⟨-, hlength⟩
    omega)
  broken f := iff_of_false (by nofun) (by
    rintro ⟨-, hle⟩
    omega)
  nothingElse e herror := by
    cases herror
    exact .inl rfl

theorem Tells.of_broken {f : StreamFault} {delivered : Bytes} (h : delivered.length ≤ expected) :
    Tells expected (.error (.decompression f)) delivered (.error (.decompression f)) where
  payload raw := iff_of_false (by nofun) (by nofun)
  tooMuch := iff_of_false (by nofun) (Nat.not_lt.2 h)
  tooLittle n hn := iff_of_false (by nofun) (by nofun)
  broken g := by
    rw [Except.error.injEq, Except.error.injEq]
    exact (and_iff_left h).symm
  nothingElse e herror := by
    cases herror
    exact .inr (.inr ⟨f, rfl⟩)

theorem Tells.of_tooLittle {delivered : Bytes} (h : delivered.length < expected) :
    Tells expected (.ok ()) delivered (.error (.sizeMismatch expected delivered.length)) where
  payload raw := iff_of_false (by nofun) (by
    rintro ⟨-, rfl, hlength⟩
    omega)
  tooMuch := by
    rw [Except.error.injEq, CodecError.sizeMismatch.injEq]
    omega
  tooLittle n hn := by
    rw [Except.error.injEq, CodecError.sizeMismatch.injEq]
    exact and_congr (iff_of_true rfl rfl) Iff.rfl
  broken f := iff_of_false (by nofun) (by nofun)
  nothingElse e herror := by
    cases herror
    exact .inr (.inl ⟨delivered.length, h, rfl⟩)

theorem Tells.of_payload {delivered : Bytes} (h : delivered.length = expected) :
    Tells expected (.ok ()) delivered (.ok delivered) where
  payload raw := by
    rw [Except.ok.injEq]
    constructor
    · rintro rfl
      exact ⟨rfl, rfl, h⟩
    · exact fun hsame => hsame.2.1
  tooMuch := iff_of_false (by nofun) (by omega)
  tooLittle n hn := iff_of_false (by nofun) (by
    rintro ⟨-, hlength⟩
    omega)
  broken f := iff_of_false (by nofun) (by nofun)
  nothingElse e herror := by cases herror

theorem tells_gather (d : Delivery) (expected : Nat) :
    Tells expected (streamed d) d.output (gather d expected) := by
  rw [gather_eq]
  by_cases hmuch : expected < d.output.length
  · rw [if_pos hmuch]
    exact .of_tooMuch hmuch
  · rw [if_neg hmuch]
    unfold streamed
    cases d.failure with
    | some f => exact .of_broken (Nat.not_lt.1 hmuch)
    | none =>
      by_cases hlittle : d.output.length < expected
      · simp only [if_pos hlittle]
        exact .of_tooLittle hlittle
      · simp only [if_neg hlittle]
        exact .of_payload (by omega)

/-- Gathering does not see where a delivery was cut. -/
theorem gather_congr {d d' : Delivery} (houtput : d'.output = d.output)
    (hfailure : d'.failure = d.failure) (expected : Nat) :
    gather d' expected = gather d expected := by
  rw [gather_eq, gather_eq, houtput, hfailure]

/-- Unpacking into a buffer that must be filled exactly tells of the stream, unpacked into a writer
that takes everything, what its bound allows. It does so in whatever pieces the stream is delivered,
and at no point is there more in the buffer than its limit. -/
theorem bounded_unpacking_tells_of_stream {σ : Type} {w : Writer σ} {able : σ → Prop}
    {received : σ → Bytes} (hw : w.Willing able received) (method : Option Method) (bs : Bytes)
    (expected : Nat) {sink : σ} (hsink : able sink) :
    (∃ answer delivered sink',
      decompressStream method (.whole bs) w sink =
          (ofExcept answer : EStateM CodecError σ Unit) sink' ∧
        received sink' = received sink ++ delivered ∧
        Tells expected answer delivered (decompress method bs expected) ∧
        ∀ pieces, pieces.flatten = delivered →
          gather { pieces, failure := (Delivery.unpack method (.whole bs)).failure } expected =
            decompress method bs expected) ∧
      inside Prod.snd (decompressStream method (.whole bs) (Writer.recorded Buffer.write)
          ([], { limit := expected })) =
        decompressStream method (.whole bs) Buffer.write { limit := expected } ∧
      ∀ b ∈ Writer.visited (decompressStream method (.whole bs) (Writer.recorded Buffer.write)
        ([], { limit := expected })), b.bytes.size ≤ expected := by
  obtain ⟨sink', hstream, hreceived⟩ := decompressStream_of_willing hw method (.whole bs) hsink
  rw [decompress_eq_gather]
  refine ⟨⟨_, _, sink', hstream, hreceived, tells_gather _ expected, ?_⟩, ?_, ?_⟩
  · intro pieces hpieces
    have houtput : Delivery.output
        { pieces, failure := (Delivery.unpack method (.whole bs)).failure } =
          (Delivery.unpack method (.whole bs)).output := hpieces
    exact gather_congr houtput rfl expected
  · exact inside_decompressStream (Writer.wraps_recorded Buffer.write) method (.whole bs) trivial
  · intro b hb
    exact (within_of_visited method (.whole bs) expected b hb).2

/-- For one, a zlib stream of three bytes whose checksum is missing, unpacked into a buffer for two
and into a sink that takes two bytes at once. -/
theorem bounded_unpacking_tells_of_cut_stream :
    let bs : Bytes := [0x78, 0x01, 0x01, 3, 0, 0xfc, 0xff, 1, 2, 3]
    let sink := Sink.bounded none (some 2)
    let run := decompressStream (some .zlib) (.whole bs) (Writer.recorded Buffer.write)
      ([], { limit := 2 })
    sink.Accepting ∧
      (∃ answer delivered sink',
        decompressStream (some .zlib) (.whole bs) Sink.write sink =
            (ofExcept answer : EStateM CodecError Sink Unit) sink' ∧
          sink'.bytes = sink.bytes ++ delivered ∧
          Tells 2 answer delivered (decompress (some .zlib) bs 2) ∧
          ∀ pieces, pieces.flatten = delivered →
            gather { pieces, failure := (Delivery.unpack (some .zlib) (.whole bs)).failure } 2 =
              decompress (some .zlib) bs 2) ∧
      inside Prod.snd run =
        decompressStream (some .zlib) (.whole bs) Buffer.write { limit := 2 } ∧
      (∀ b ∈ Writer.visited run, b.bytes.size ≤ 2) ∧
      decompress (some .zlib) bs 2 = .error (.sizeMismatch 2 3) := by
  intro bs sink run
  have hsink : sink.Accepting := by
    intro calls total offered hpos
    exact ⟨min offered 2, by omega, rfl⟩
  obtain ⟨htells, hsame, hwithin⟩ :=
    bounded_unpacking_tells_of_stream Sink.willing_write (some .zlib) bs 2 hsink
  exact ⟨hsink, htells, hsame, hwithin, by decide +kernel⟩

end Codec

end SectionArchive
