import Mathlib
import SectionArchive.Proofs.Streaming
/-!
Streaming into any writer. A writer may take less than it is offered, take nothing, or fail, at any
request; all that is asked of it is that its answers are true. Then what it received is always a
beginning of what the decoder makes, never longer than announced, and the meter's count and checksum
are those of the bytes that went by. So success means that all of the payload arrived and passed its
checksum, and a checksum that does not match is that of the bytes that arrived.
-/

namespace SectionArchive

/-! ### Writers -/

namespace Writer

variable {σ : Type} {w : Writer σ} {R : σ → Bytes → σ → Prop} {received : σ → Bytes}

/-- `R` accounts for what a writer takes: the bytes that it says it took of an offer, and none when
it fails. -/
structure Accounts (w : Writer σ) (R : σ → Bytes → σ → Prop) : Prop where
  nil : ∀ s, R s [] s
  append : ∀ {s s' s'' a b}, R s a s' → R s' b s'' → R s (a ++ b) s''
  took : ∀ {data s n s'}, w data s = .ok n s' → n ≤ data.length ∧ R s (data.take n) s'
  failed : ∀ {data s f s'}, w data s = .error f s' → R s [] s'

/-- The writer's answers are true, and `received` is what it has taken so far. -/
structure Truthful (w : Writer σ) (received : σ → Bytes) : Prop where
  took : ∀ {data s n s'}, w data s = .ok n s' →
    n ≤ data.length ∧ received s' = received s ++ data.take n
  failed : ∀ {data s f s'}, w data s = .error f s' → received s' = received s

theorem Truthful.accounts (hw : w.Truthful received) :
    w.Accounts fun s data s' => received s' = received s ++ data where
  nil s := (List.append_nil _).symm
  append h h' := by rw [h', h, List.append_assoc]
  took := hw.took
  failed h := by rw [hw.failed h, List.append_nil]

/-- Where requests to take some bytes have led: all of them were taken, or a beginning of them when
a request failed. -/
inductive Written (R : σ → Bytes → σ → Prop) (s : σ) (data : Bytes) :
    EStateM.Result Fault σ Unit → Prop
  | all {s' : σ} (htook : R s data s') : Written R s data (.ok () s')
  | part {f : Fault} {s' : σ} (taken : Bytes) (hbegins : taken <+: data) (htook : R s taken s') :
    Written R s data (.error f s')

/-- What was taken before comes in front. -/
theorem Written.append {s s' : σ} {a b : Bytes} {r : EStateM.Result Fault σ Unit}
    (hw : w.Accounts R) (hfirst : R s a s') (hrest : Written R s' b r) : Written R s (a ++ b) r := by
  cases hrest with
  | all htook => exact .all (hw.append hfirst htook)
  | part taken hbegins htook =>
    exact .part (a ++ taken) ((List.prefix_append_right_inj a).2 hbegins) (hw.append hfirst htook)

theorem Accounts.writeAll (hw : w.Accounts R) (data : Bytes) (s : σ) :
    Written R s data (w.writeAll data s) := by
  -- Each request that takes something shortens what is left to offer; all others end the run.
  induction hlen : data.length using Nat.strongRecOn generalizing data s with
  | ind len ih =>
    by_cases hdata : data = []
    · subst hdata
      rw [writeAll_nil]
      exact .all (hw.nil s)
    · cases hwrite : w data s with
      | error f s' =>
        rw [writeAll_of_error hdata hwrite]
        exact .part [] List.nil_prefix (hw.failed hwrite)
      | ok n s' =>
        obtain ⟨hle, htook⟩ := hw.took hwrite
        by_cases hn : n = 0
        · subst hn
          rw [writeAll_of_stalled hdata hwrite]
          exact .part [] List.nil_prefix htook
        · have hrest := ih (data.drop n).length (by rw [List.length_drop]; omega) (data.drop n) s' rfl
          rw [writeAll_of_ok hdata hwrite hn]
          have hall := hrest.append hw htook
          rwa [List.take_append_drop] at hall

theorem Accounts.writePieces (hw : w.Accounts R) (pieces : List Bytes) (s : σ) :
    Written R s pieces.flatten (w.writePieces pieces s) := by
  induction pieces generalizing s with
  | nil => exact .all (hw.nil s)
  | cons p rest ih =>
    have hfirst := hw.writeAll p s
    rw [List.flatten_cons]
    cases hwrite : w.writeAll p s with
    | ok u s' =>
      rw [hwrite] at hfirst
      rw [writePieces_cons_of_ok hwrite]
      cases hfirst with
      | all htook => exact (ih s').append hw htook
    | error f s' =>
      rw [hwrite] at hfirst
      rw [writePieces_cons_of_error hwrite]
      cases hfirst with
      | part taken hbegins htook =>
        exact .part taken (hbegins.trans (List.prefix_append p _)) htook

end Writer

theorem Sink.truthful_write : Writer.Truthful Sink.write Sink.bytes where
  took := by
    intro data s n s' hwrite
    unfold Sink.write at hwrite
    cases hpolicy : s.policy s.calls s.received.size data.length with
    | refuse =>
      rw [hpolicy] at hwrite
      cases hwrite
    | take k =>
      rw [hpolicy] at hwrite
      cases hwrite
      refine ⟨by rw [List.length_take]; omega, ?_⟩
      rw [bytes, bytes, Array.toList_appendList, List.length_take, ← List.take_eq_take_min]
  failed := by
    intro data s f s' hwrite
    unfold Sink.write at hwrite
    cases hpolicy : s.policy s.calls s.received.size data.length with
    | refuse =>
      rw [hpolicy] at hwrite
      cases hwrite
      rfl
    | take k =>
      rw [hpolicy] at hwrite
      cases hwrite

/-! ### Deliveries -/

/-- All that the decoder of a method makes of some bytes, whether or not it gets to their end. -/
def Codec.unpacked : Option Method → Bytes → Bytes
  | none, bs => bs
  | some .zlib, bs => (Zlib.decode bs).output
  | some .xz, bs => (Xz.decode bs).output

theorem Codec.unpacked_nil (method : Option Method) : unpacked method [] = [] := by
  cases method with
  | none => rfl
  | some method => cases method <;> rfl

namespace Delivery

/-- However a source is cut and wherever it fails, what is handed on is a beginning of what the
decoder makes of its data. -/
theorem output_unpack_prefix (method : Option Method) (source : Source) :
    (unpack method source).output <+: Codec.unpacked method source.data := by
  have hwhole : ∀ out failure, (ofBytes out failure).output <+: out := fun out failure => by
    rw [output_ofBytes]
  have hpart : ∀ k out failure, (ofBytes (out.take k) failure).output <+: out :=
    fun k out failure => by
      rw [output_ofBytes]
      exact List.take_prefix k out
  cases method with
  | none => exact hwhole _ _
  | some method =>
    cases method with
    | zlib =>
      simp only [unpack, zlib, Codec.unpacked]
      split
      · exact hwhole _ _
      · split
        · exact hpart _ _ _
        · exact hwhole _ _
      · exact hwhole _ _
      · exact hpart _ _ _
      · exact hpart _ _ _
    | xz =>
      simp only [unpack, xz, Codec.unpacked]
      split
      · split
        · exact hwhole _ _
        · exact hwhole _ _
      · exact hwhole _ _
      · exact hpart _ _ _

/-- Of no data nothing is handed on. -/
theorem output_unpack_of_nil (method : Option Method) {source : Source} (h : source.data = []) :
    (unpack method source).output = [] := by
  have hbegins := output_unpack_prefix method source
  rw [h, Codec.unpacked_nil] at hbegins
  exact List.prefix_nil.1 hbegins

/-- What does not fail hands on all that the decoder makes. -/
theorem output_unpack_eq {method : Option Method} {bs : Bytes} {slice : Nat}
    (hfailure : (unpack method { data := bs, slice }).failure = none) :
    (unpack method { data := bs, slice }).output = Codec.unpacked method bs := by
  cases method with
  | none => exact output_ofBytes _ _
  | some method =>
    cases method with
    | zlib =>
      simp only [unpack, zlib, Codec.unpacked] at hfailure ⊢
      cases hstop : (Zlib.decode bs).stop with
      | none => exact output_ofBytes _ _
      | some stop =>
        rw [hstop] at hfailure
        cases stop <;> cases hfailure
    | xz =>
      simp only [unpack, xz, Codec.unpacked] at hfailure ⊢
      cases hstop : (Xz.decode bs).stop with
      | none =>
        simp only
        split
        · exact output_ofBytes _ _
        · exact output_ofBytes _ _
      | some stop =>
        rw [hstop] at hfailure
        cases stop <;> cases hfailure

/-- Of a source that fails before its first byte nothing is handed on, and the failure is told. -/
theorem unpack_of_failing (method : Option Method) (slice : Nat) (f : Fault) :
    (unpack method { data := [], slice, failure := some f }).output = [] ∧
      (unpack method { data := [], slice, failure := some f }).failure ≠ none := by
  have hzlib : (Zlib.decode []).stop = some .starved := rfl
  have hxz : (Xz.decode []).stop = some .starved := rfl
  constructor
  · exact output_unpack_of_nil method rfl
  · cases method with
    | none => exact Option.some_ne_none _
    | some method =>
      cases method with
      | zlib =>
        simp only [unpack, zlib, hzlib]
        exact Option.some_ne_none _
      | xz =>
        simp only [unpack, xz, hxz]
        exact Option.some_ne_none _

end Delivery

namespace Section

variable {σ : Type} {w : Writer σ} {R : σ → Bytes → σ → Prop} {received : σ → Bytes}
  {h : SectionHeader} {index : Nat} {kind : Checksum.Kind} {d : Delivery} {taken : Bytes}

/-! ### Meters -/

theorem Meter.write_ok {data : Bytes} {m m' : Meter σ} {n : Nat}
    (h : Meter.write w data m = .ok n m') :
    m.count + data.length ≤ m.limit ∧ ∃ inner, w data m.inner = .ok n inner ∧
      m' = { m with inner, running := m.running.push (data.take n), count := m.count + n } := by
  unfold Meter.write at h
  by_cases hover : m.limit < m.count + data.length
  · rw [if_pos hover] at h
    cases h
  · rw [if_neg hover] at h
    refine ⟨Nat.le_of_not_lt hover, ?_⟩
    cases hinner : w data m.inner with
    | error f inner =>
      rw [hinner] at h
      cases h
    | ok k inner =>
      rw [hinner] at h
      cases h
      exact ⟨inner, rfl, rfl⟩

/-- A meter refuses what goes beyond its limit, and else what its writer refuses. -/
theorem Meter.write_error {data : Bytes} {m m' : Meter σ} {f : Fault}
    (h : Meter.write w data m = .error f m') :
    (m.limit < m.count + data.length ∧ f = .oversized ∧ m' = m) ∨
      m.count + data.length ≤ m.limit ∧
        ∃ inner, w data m.inner = .error f inner ∧ m' = { m with inner } := by
  unfold Meter.write at h
  by_cases hover : m.limit < m.count + data.length
  · rw [if_pos hover] at h
    cases h
    exact .inl ⟨hover, rfl, rfl⟩
  · rw [if_neg hover] at h
    refine .inr ⟨Nat.le_of_not_lt hover, ?_⟩
    cases hinner : w data m.inner with
    | error f inner =>
      rw [hinner] at h
      cases h
      exact ⟨inner, rfl, rfl⟩
    | ok k inner =>
      rw [hinner] at h
      cases h

/-- One request through a meter keeps count and checksum in step with what its writer took, and the
count within the limit. -/
theorem Meter.accounts_write (hw : w.Accounts R) : Writer.Accounts (Meter.write w)
    fun m data m' => Meter.Forwarded R m data m' ∧ (m.count ≤ m.limit → m'.count ≤ m'.limit) where
  nil m := ⟨.of_nil (hw.nil m.inner), id⟩
  append h h' := ⟨h.1.append hw.append h'.1, fun hroom => h'.2 (h.2 hroom)⟩
  took := by
    intro data m n m' hwrite
    obtain ⟨hroom, inner, hinner, rfl⟩ := Meter.write_ok hwrite
    obtain ⟨hle, htook⟩ := hw.took hinner
    have hlength : (data.take n).length = n := List.length_take_of_le hle
    refine ⟨hle, ⟨htook, rfl, by rw [hlength], rfl⟩, fun _ => ?_⟩
    show m.count + n ≤ m.limit
    omega
  failed := by
    intro data m f m' hwrite
    rcases Meter.write_error hwrite with ⟨-, -, rfl⟩ | ⟨-, inner, hinner, rfl⟩
    · exact ⟨.of_nil (hw.nil m'.inner), id⟩
    · exact ⟨.of_nil (hw.failed hinner), id⟩

/-! ### Answers -/

structure Whole (h : SectionHeader) (d : Delivery) (taken : Bytes) : Prop where
  failure : d.failure = none
  output : taken = d.output
  length : taken.length = h.size.toNat

/-- What the answer says is true of the bytes that were taken: whether the checksum matches is told
only of a whole delivery, and truly. -/
structure Vouches (index : Nat) (h : SectionHeader) (kind : Checksum.Kind) (d : Delivery)
    (taken : Bytes) (r : Except Error Nat) : Prop where
  success : ∀ n, r = .ok n → Whole h d taken ∧ n = h.size.toNat ∧
    (kind = .none ∨ h.checksum = Checksum.checksum kind taken)
  mismatch : ∀ site expected actual, r = .error (.checksum site expected actual) →
    Whole h d taken ∧ site = .payload index ∧ expected = h.checksum ∧
      actual = Checksum.checksum kind taken ∧ kind ≠ .none ∧ expected ≠ actual

theorem Vouches.of_error {e : Error} (he : e.code ≠ .checksum) :
    Vouches index h kind d taken (.error e) where
  success n hn := by cases hn
  mismatch site expected actual heq := by
    cases heq
    exact absurd rfl he

/-- That unpacking failed says nothing of the checksum. -/
theorem Vouches.of_inflate {e : Error} (he : e.code = .inflate) :
    Vouches index h kind d taken (.error e) := by
  apply Vouches.of_error
  intro hcode
  rw [he] at hcode
  cases hcode

/-- Of a delivery that fails the checksum is not even told. -/
theorem Vouches.error_of_failure {r : Except Error Nat} (hvouches : Vouches index h kind d taken r)
    (hfailure : d.failure ≠ none) : ∃ e, r = .error e ∧ e.code ≠ .checksum := by
  cases r with
  | ok n => exact absurd (hvouches.success n rfl).1.failure hfailure
  | error e =>
    refine ⟨e, rfl, fun hcode => ?_⟩
    cases e with
    | checksum site expected actual =>
      exact hfailure (hvouches.mismatch site expected actual rfl).1.failure
    | _ => cases hcode

def concluded (index : Nat) (h : SectionHeader) (kind : Checksum.Kind) (d : Delivery)
    (m : Meter σ) : Except Error Nat :=
  match d.failure with
  | some f => .error (.inflate f)
  | none =>
    if m.count ≠ h.size.toNat then .error (.inflateSize h.size.toNat m.count)
    else
      match check index kind h.checksum m.running.finish with
      | .error e => .error e
      | .ok () => .ok m.count

theorem Vouches.of_concluded {m : Meter σ} (hcount : m.count = d.output.length)
    (hrunning : m.running = kind.start.push d.output) :
    Vouches index h kind d d.output (concluded index h kind d m) := by
  have hsum : m.running.finish = Checksum.checksum kind d.output := by
    rw [hrunning, Checksum.checksum]
  unfold concluded
  cases hfailure : d.failure with
  | some f => exact .of_inflate rfl
  | none =>
    by_cases hsize : m.count = h.size.toNat
    · have hwhole : Whole h d d.output := ⟨hfailure, rfl, hcount.symm.trans hsize⟩
      simp only [hsum, hsize, ne_eq, not_true_eq_false, if_false]
      by_cases hmatch : kind = .none ∨ h.checksum = Checksum.checksum kind d.output
      · rw [check_of_match hmatch]
        refine ⟨fun n hn => ?_, fun site expected actual heq => ?_⟩
        · cases hn
          exact ⟨hwhole, rfl, hmatch⟩
        · cases heq
      · obtain ⟨hkind, hne⟩ := not_or.1 hmatch
        rw [check_of_mismatch hkind hne]
        refine ⟨fun n hn => ?_, fun site expected actual heq => ?_⟩
        · cases hn
        · cases heq
          exact ⟨hwhole, rfl, rfl, rfl, hkind, hne⟩
    · simp only [ne_eq, hsize, not_false_eq_true, if_true]
      exact .of_inflate rfl

section

variable {method : Option Method} {source : Source} {sink : σ} {m : Meter σ}

theorem forward_of_error {f : Fault}
    (hrun : (Meter.write w).writePieces (Delivery.unpack method source).pieces
      { inner := sink, running := kind.start, limit := h.size.toNat } = .error f m) :
    forward index h method kind source w sink = .error (.inflate (.io f)) m.inner := by
  simp only [forward, Codec.decompressStream, Codec.asError, Codec.forward, hrun, Error.ofCodec]

theorem forward_of_ok
    (hrun : (Meter.write w).writePieces (Delivery.unpack method source).pieces
      { inner := sink, running := kind.start, limit := h.size.toNat } = .ok () m) :
    answer (forward index h method kind source w sink) =
        concluded index h kind (Delivery.unpack method source) m ∧
      Container.after (forward index h method kind source w sink) = m.inner := by
  simp only [forward, Codec.decompressStream, Codec.asError, Codec.forward, hrun, concluded]
  cases (Delivery.unpack method source).failure with
  | some f => exact ⟨rfl, rfl⟩
  | none =>
    by_cases hsize : m.count = h.size.toNat
    · simp only [ne_eq, hsize, not_true_eq_false, if_false]
      cases check index kind h.checksum m.running.finish with
      | error e => exact ⟨rfl, rfl⟩
      | ok u => exact ⟨rfl, rfl⟩
    · simp only [ne_eq, hsize, not_false_eq_true, if_true]
      exact ⟨rfl, rfl⟩

/-- Whatever the writer does, it has taken a beginning of the delivery, within the announced size,
and the answer vouches for that. -/
theorem forward_accounts (hw : w.Accounts R) (index : Nat) (h : SectionHeader)
    (method : Option Method) (kind : Checksum.Kind) (source : Source) (sink : σ) :
    ∃ taken, R sink taken (Container.after (forward index h method kind source w sink)) ∧
      taken <+: (Delivery.unpack method source).output ∧ taken.length ≤ h.size.toNat ∧
      Vouches index h kind (Delivery.unpack method source) taken
        (answer (forward index h method kind source w sink)) := by
  have hwritten := (Meter.accounts_write hw).writePieces (Delivery.unpack method source).pieces
    { inner := sink, running := kind.start, limit := h.size.toNat }
  rw [← Delivery.output] at hwritten
  cases hrun : (Meter.write w).writePieces (Delivery.unpack method source).pieces
      { inner := sink, running := kind.start, limit := h.size.toNat } with
  | error f m =>
    rw [hrun] at hwritten
    rw [forward_of_error hrun]
    cases hwritten with
    | part taken hbegins htook =>
      obtain ⟨⟨hinner, -, hcount, hlimit⟩, hroom⟩ := htook
      have hfits := hroom (Nat.zero_le _)
      rw [hcount, hlimit, Nat.zero_add] at hfits
      exact ⟨taken, hinner, hbegins, hfits, .of_inflate rfl⟩
  | ok u m =>
    rw [hrun] at hwritten
    obtain ⟨hanswer, hafter⟩ := forward_of_ok hrun
    rw [hanswer, hafter]
    cases hwritten with
    | all htook =>
      obtain ⟨⟨hinner, hrunning, hcount, hlimit⟩, hroom⟩ := htook
      have hfits := hroom (Nat.zero_le _)
      rw [hcount, hlimit, Nat.zero_add] at hfits
      rw [Nat.zero_add] at hcount
      exact ⟨_, hinner, List.prefix_rfl, hfits, .of_concluded hcount hrunning⟩

end

/-! ### Streaming -/

theorem error_of_selection {e : Error} (hselection : h.selection index = .error e) :
    e = .badFlags index h.flags := by
  unfold SectionHeader.selection at hselection
  split at hselection
  · cases hselection
  · cases hselection
    rfl

/-- Streaming fails before the writer is asked for anything, or forwards the section's place. -/
theorem stream_accounts (hw : w.Accounts R) (index : Nat) (h : SectionHeader) (s : Storage)
    (sink : σ) :
    ∃ taken, R sink taken (Container.after (stream index h w (s, sink))).2 ∧
      (taken = [] ∧ (∃ e, answer (stream index h w (s, sink)) = .error e ∧ e.code ≠ .checksum) ∨
        Flags.Valid h.flags ∧
          taken <+: (Delivery.unpack (Flags.packing h.flags)
            (.buffered (place s.content h))).output ∧
          taken.length ≤ h.size.toNat ∧
          Vouches index h (Flags.kind h.flags)
            (Delivery.unpack (Flags.packing h.flags) (.buffered (place s.content h))) taken
            (answer (stream index h w (s, sink)))) := by
  cases hselection : h.selection index with
  | error e =>
    simp only [stream, hselection]
    refine ⟨[], hw.nil sink, .inl ⟨rfl, e, rfl, ?_⟩⟩
    intro hcode
    rw [error_of_selection hselection] at hcode
    cases hcode
  | ok r =>
    have hflags := SectionHeader.valid_of_selection hselection
    have hselected := SectionHeader.selection_of_valid hflags index
    rcases locate_cases h s with ⟨source, s', hlocate, -, hsource⟩ | ⟨f, s', hlocate, -⟩
    · obtain ⟨taken, htook, hbegins, hfits, hvouches⟩ :=
        forward_accounts hw index h (Flags.packing h.flags) (Flags.kind h.flags) source sink
      have hstream : answer (stream index h w (s, sink)) = answer
            (forward index h (Flags.packing h.flags) (Flags.kind h.flags) source w sink) ∧
          (Container.after (stream index h w (s, sink))).2 = Container.after
            (forward index h (Flags.packing h.flags) (Flags.kind h.flags) source w sink) := by
        simp only [stream, hselected, hlocate]
        cases forward index h (Flags.packing h.flags) (Flags.kind h.flags) source w sink <;>
          exact ⟨rfl, rfl⟩
      rw [hstream.1, hstream.2]
      refine ⟨taken, htook, ?_⟩
      rcases hsource with rfl | ⟨f, rfl⟩
      · exact .inr ⟨hflags, hbegins, hfits, hvouches⟩
      · obtain ⟨hnothing, hfailure⟩ :=
          Delivery.unpack_of_failing (Flags.packing h.flags) Source.defaultSlice f
        rw [hnothing] at hbegins
        exact .inl ⟨List.prefix_nil.1 hbegins, hvouches.error_of_failure hfailure⟩
    · simp only [stream, hselected, hlocate]
      refine ⟨[], hw.nil sink, .inl ⟨rfl, .io f, rfl, ?_⟩⟩
      intro hcode
      cases hcode

/-- A whole delivery is what unpacking the place in one piece comes to. -/
theorem Whole.complete {method : Option Method} {packed : Bytes} {slice : Nat}
    (hwhole : Whole h (.unpack method { data := packed, slice }) taken) :
    Complete (.unpack method (.whole packed)) h.size.toNat ∧
      taken = (Delivery.unpack method (.whole packed)).output := by
  have hcomplete := complete_unpack_whole ⟨hwhole.failure, hwhole.output ▸ hwhole.length⟩
  exact ⟨hcomplete, hwhole.output.trans (complete_unpack hcomplete slice).2⟩

theorem Whole.decode_eq {packed : Bytes} {slice : Nat} (hflags : Flags.Valid h.flags)
    (hwhole : Whole h (.unpack (Flags.packing h.flags) { data := packed, slice }) taken)
    (hsum : Flags.kind h.flags = .none ∨
      h.checksum = Checksum.checksum (Flags.kind h.flags) taken) (index : Nat) :
    decode index h packed = .ok taken := by
  obtain ⟨hcomplete, htaken⟩ := hwhole.complete
  rw [decode_of_complete (SectionHeader.selection_of_valid hflags index) hcomplete, ← htaken,
    check_of_match hsum]

/-- Streaming is sound for every storage and every writer whose answers are true. What the writer
received is a beginning of what the decoder makes of the section's place, and no longer than
announced. Success is answered only when that is the whole payload and its checksum matches, and a
checksum that does not match is that of a whole payload of the announced size. -/
theorem stream_is_sound (hw : w.Truthful received) (index : Nat) (h : SectionHeader) (s : Storage)
    (sink : σ) :
    ∃ taken, received (Container.after (stream index h w (s, sink))).2 = received sink ++ taken ∧
      taken <+: Codec.unpacked (Flags.packing h.flags) (place s.content h) ∧
      taken.length ≤ h.size.toNat ∧
      (∀ n, answer (stream index h w (s, sink)) = .ok n →
        n = h.size.toNat ∧ taken.length = n ∧
          taken = Codec.unpacked (Flags.packing h.flags) (place s.content h) ∧
          decode index h (place s.content h) = .ok taken ∧
          (Flags.kind h.flags = .none ∨
            h.checksum = Checksum.checksum (Flags.kind h.flags) taken)) ∧
      ∀ site expected actual,
        answer (stream index h w (s, sink)) = .error (.checksum site expected actual) →
          site = .payload index ∧ expected = h.checksum ∧ taken.length = h.size.toNat ∧
            actual = Checksum.checksum (Flags.kind h.flags) taken ∧
            Flags.kind h.flags ≠ .none ∧ expected ≠ actual := by
  obtain ⟨taken, htook, ⟨rfl, e, hanswer, hcode⟩ | ⟨hflags, hbegins, hfits, hvouches⟩⟩ :=
    stream_accounts hw.accounts index h s sink
  · refine ⟨[], htook, List.nil_prefix, Nat.zero_le _, fun n hn => ?_, ?_⟩
    · rw [hanswer] at hn
      cases hn
    · intro site expected actual herror
      rw [hanswer] at herror
      cases herror
      exact absurd rfl hcode
  · refine ⟨taken, htook, hbegins.trans (Delivery.output_unpack_prefix _ _), hfits,
      fun n hn => ?_, fun site expected actual herror => ?_⟩
    · obtain ⟨hwhole, hsize, hsum⟩ := hvouches.success n hn
      exact ⟨hsize, hwhole.length.trans hsize.symm,
        hwhole.output.trans (Delivery.output_unpack_eq hwhole.failure),
        hwhole.decode_eq hflags hsum index, hsum⟩
    · obtain ⟨hwhole, hsite, hexpected, hactual, hkind, hne⟩ :=
        hvouches.mismatch site expected actual herror
      exact ⟨hsite, hexpected, hwhole.length, hactual, hkind, hne⟩

/-- For one, a section of three bytes that is streamed into a sink that takes one byte, then two of
what is left, and then refuses everything. -/
theorem stream_is_sound_until_the_sink_refuses :
    let h : SectionHeader :=
      { pointer := 1, csize := 4, size := 4, checksum := 0xA0006, flags := 0x8 }
    let s : Storage := { content := [9, 1, 2, 3, 4, 9] }
    let sink : Sink := { policy := fun calls _ _ => if calls < 2 then .take (calls + 1) else .refuse }
    Writer.Truthful Sink.write Sink.bytes ∧
      ∃ taken, (Container.after (stream 5 h Sink.write (s, sink))).2.bytes = sink.bytes ++ taken ∧
        taken <+: [1, 2, 3, 4] ∧ taken.length ≤ 4 ∧
        (∀ n, answer (stream 5 h Sink.write (s, sink)) = .ok n →
          n = 4 ∧ taken.length = n ∧ taken = [1, 2, 3, 4] ∧
            decode 5 h [1, 2, 3, 4] = .ok taken ∧
            (Flags.kind h.flags = .none ∨ 0xA0006 = Checksum.checksum (Flags.kind h.flags) taken)) ∧
        ∀ site expected actual,
          answer (stream 5 h Sink.write (s, sink)) = .error (.checksum site expected actual) →
            site = .payload 5 ∧ expected = 0xA0006 ∧ taken.length = 4 ∧
              actual = Checksum.checksum (Flags.kind h.flags) taken ∧
              Flags.kind h.flags ≠ .none ∧ expected ≠ actual :=
  ⟨Sink.truthful_write, stream_is_sound Sink.truthful_write 5 _ _ _⟩

end Section

end SectionArchive
