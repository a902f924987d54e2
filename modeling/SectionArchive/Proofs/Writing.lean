import Mathlib
import SectionArchive.Codec
/-!
Writing into sinks and buffers. A sink that always takes something takes everything in the end,
however it cuts its share; a buffer takes everything or overflows, and which of the two depends on
the total alone.
-/

namespace SectionArchive

theorem append_append_bytes (a : Array UInt8) (p q : Bytes) : a ++ p ++ q = a ++ (p ++ q) := by
  apply Array.ext'
  simp only [Array.toList_appendList, List.append_assoc]

theorem size_append_bytes (a : Array UInt8) (p : Bytes) : (a ++ p).size = a.size + p.length := by
  rw [← Array.length_toList, Array.toList_appendList, List.length_append, Array.length_toList]

namespace Writer

variable {σ : Type} {w : Writer σ}

theorem writeAll_nil (s : σ) : w.writeAll [] s = .ok () s := by
  rw [writeAll]
  rfl

theorem writeAll_of_ok {data : Bytes} {n : Nat} {s s' : σ} (hdata : data ≠ [])
    (h : w data s = .ok n s') (hn : n ≠ 0) : w.writeAll data s = w.writeAll (data.drop n) s' := by
  rw [writeAll]
  simp only [hdata, dif_neg, not_false_eq_true, bind, EStateM.bind, h, hn]

theorem writeAll_of_error {data : Bytes} {f : Fault} {s s' : σ} (hdata : data ≠ [])
    (h : w data s = .error f s') : w.writeAll data s = .error f s' := by
  rw [writeAll]
  simp only [hdata, dif_neg, not_false_eq_true, bind, EStateM.bind, h]

theorem writeAll_of_stalled {data : Bytes} {s s' : σ} (hdata : data ≠ []) (h : w data s = .ok 0 s') :
    w.writeAll data s = .error .sinkStalled s' := by
  rw [writeAll]
  simp only [hdata, dif_neg, not_false_eq_true, bind, EStateM.bind, h, dif_pos]
  rfl

theorem writePieces_cons_of_ok {p : Bytes} {rest : List Bytes} {s s' : σ}
    (h : w.writeAll p s = .ok () s') : w.writePieces (p :: rest) s = w.writePieces rest s' := by
  simp only [writePieces, bind, EStateM.bind, h]

theorem writePieces_cons_of_error {p : Bytes} {rest : List Bytes} {f : Fault} {s s' : σ}
    (h : w.writeAll p s = .error f s') : w.writePieces (p :: rest) s = .error f s' := by
  simp only [writePieces, bind, EStateM.bind, h]

/-- A writer that, as long as `P` holds of its state and of what is to come, takes at least a byte
of what it is offered; `R` tells the states before and after some bytes were taken. -/
structure Accepts (w : Writer σ) (P : σ → Bytes → Prop) (R : σ → Bytes → σ → Prop) : Prop where
  nil : ∀ s, R s [] s
  append : ∀ {s s' s'' a b}, R s a s' → R s' b s'' → R s (a ++ b) s''
  step : ∀ {s data rest}, data ≠ [] → P s (data ++ rest) →
    ∃ n s', 0 < n ∧ n ≤ data.length ∧ w data s = .ok n s' ∧ R s (data.take n) s' ∧
      P s' (data.drop n ++ rest)

variable {P : σ → Bytes → Prop} {R : σ → Bytes → σ → Prop}

theorem Accepts.writeAll (h : w.Accepts P R) {s : σ} (data rest : Bytes) (hs : P s (data ++ rest)) :
    ∃ s', w.writeAll data s = .ok () s' ∧ R s data s' ∧ P s' rest := by
  -- Each request shortens what is left to offer.
  induction hlen : data.length using Nat.strongRecOn generalizing data s with
  | ind len ih =>
    by_cases hdata : data = []
    · subst hdata
      exact ⟨s, writeAll_nil s, h.nil s, hs⟩
    · obtain ⟨n, s', hpos, hle, hwrite, htook, hs'⟩ := h.step hdata hs
      obtain ⟨s'', hrest, htook', hs''⟩ := ih (data.drop n).length
        (by rw [List.length_drop]; omega) (data.drop n) hs' rfl
      refine ⟨s'', ?_, ?_, hs''⟩
      · rw [writeAll_of_ok hdata hwrite (by omega), hrest]
      · rw [← List.take_append_drop n data]
        exact h.append htook htook'

theorem Accepts.writePieces (h : w.Accepts P R) {s : σ} (pieces : List Bytes)
    (hs : P s pieces.flatten) :
    ∃ s', w.writePieces pieces s = .ok () s' ∧ R s pieces.flatten s' := by
  induction pieces generalizing s with
  | nil => exact ⟨s, rfl, h.nil s⟩
  | cons p rest ih =>
    obtain ⟨s', hfirst, htook, hs'⟩ := h.writeAll p rest.flatten hs
    obtain ⟨s'', hrest, htook'⟩ := ih hs'
    exact ⟨s'', by rw [writePieces_cons_of_ok hfirst, hrest], h.append htook htook'⟩

end Writer

/-! ### Sinks -/

namespace Sink

variable {s : Sink}

def Accepting (s : Sink) : Prop :=
  ∀ calls total offered, 0 < offered → ∃ n, 0 < n ∧ s.policy calls total offered = .take n

def Received (s : Sink) (data : Bytes) (s' : Sink) : Prop :=
  s'.policy = s.policy ∧ s'.received = s.received ++ data

theorem accepting_unlimited : unlimited.Accepting := fun _ _ offered h => ⟨offered, h, rfl⟩

theorem Accepting.write (h : s.Accepting) {data : Bytes} (hdata : data ≠ []) :
    ∃ n s', 0 < n ∧ n ≤ data.length ∧ Sink.write data s = .ok n s' ∧
      Received s (data.take n) s' := by
  have hpos := List.length_pos_iff.2 hdata
  obtain ⟨n, hn, hpolicy⟩ := h s.calls s.received.size data.length hpos
  refine ⟨(data.take n).length,
    { s with calls := s.calls + 1, received := s.received ++ data.take n }, ?_, ?_, ?_, rfl, ?_⟩
  · rw [List.length_take]
    omega
  · rw [List.length_take]
    omega
  · simp only [Sink.write, hpolicy]
  · rw [List.length_take, ← List.take_eq_take_min]

theorem accepts_write : Writer.Accepts Sink.write (fun s _ => s.Accepting) Received where
  nil s := ⟨rfl, by simp⟩
  append h h' := ⟨h'.1.trans h.1, by rw [h'.2, h.2, append_append_bytes]⟩
  step hdata hs := by
    obtain ⟨n, s', hpos, hle, hwrite, hreceived⟩ := Accepting.write hs hdata
    refine ⟨n, s', hpos, hle, hwrite, hreceived, ?_⟩
    rw [Accepting, hreceived.1]
    exact hs

theorem Received.bytes_eq {s' : Sink} {data : Bytes} (h : Received s data s') :
    s'.bytes = s.bytes ++ data := by
  rw [bytes, h.2, Array.toList_appendList, bytes]

end Sink

/-! ### Buffers -/

namespace Codec.Buffer

variable {b : Buffer}

theorem writeAll_of_le {data : Bytes} (h : b.bytes.size + data.length ≤ b.limit) :
    Writer.writeAll Buffer.write data b = .ok () { b with bytes := b.bytes ++ data } := by
  by_cases hdata : data = []
  · subst hdata
    rw [Writer.writeAll_nil]
    simp
  · have hwrite : Buffer.write data b = .ok data.length { b with bytes := b.bytes ++ data } := by
      rw [Buffer.write, if_neg (by omega)]
    rw [Writer.writeAll_of_ok hdata hwrite (by simpa using hdata), List.drop_length,
      Writer.writeAll_nil]

theorem writeAll_of_lt {data : Bytes} (hfits : b.bytes.size ≤ b.limit)
    (h : b.limit < b.bytes.size + data.length) :
    Writer.writeAll Buffer.write data b = .error .oversized { b with overflowed := true } := by
  have hdata : data ≠ [] := by
    rintro rfl
    simp at h
    omega
  refine Writer.writeAll_of_error hdata ?_
  rw [Buffer.write, if_pos h]

theorem writePieces_of_le (pieces : List Bytes)
    (h : b.bytes.size + pieces.flatten.length ≤ b.limit) :
    Writer.writePieces Buffer.write pieces b =
      .ok () { b with bytes := b.bytes ++ pieces.flatten } := by
  induction pieces generalizing b with
  | nil => simp [Writer.writePieces, pure, EStateM.pure]
  | cons p rest ih =>
    rw [List.flatten_cons, List.length_append] at h
    rw [Writer.writePieces_cons_of_ok (writeAll_of_le (by omega)),
      ih (by simp only [size_append_bytes]; omega)]
    simp only [append_append_bytes, List.flatten_cons]

/-- Too much is noticed, whatever pieces it comes in. -/
theorem writePieces_of_lt (pieces : List Bytes) (hfits : b.bytes.size ≤ b.limit)
    (h : b.limit < b.bytes.size + pieces.flatten.length) :
    ∃ b', Writer.writePieces Buffer.write pieces b = .error .oversized b' ∧
      b'.overflowed = true := by
  induction pieces generalizing b with
  | nil => simp at h; omega
  | cons p rest ih =>
    rw [List.flatten_cons, List.length_append] at h
    by_cases hp : b.bytes.size + p.length ≤ b.limit
    · obtain ⟨b', hrest, hover⟩ := ih (b := { b with bytes := b.bytes ++ p })
        (by simp only [size_append_bytes]; omega) (by simp only [size_append_bytes]; omega)
      exact ⟨b', by rw [Writer.writePieces_cons_of_ok (writeAll_of_le hp), hrest], hover⟩
    · exact ⟨_, Writer.writePieces_cons_of_error (writeAll_of_lt hfits (by omega)), rfl⟩

end Codec.Buffer

end SectionArchive
