import Mathlib
import SectionArchive.Proofs.LedgerEntries
/-!
A payload in memory is a file. What each call does is told byte by byte and without the operations
themselves: a write puts its bytes at the cursor, behind zeros if there was a gap, and leaves all
others; reading gives what lies ahead of the cursor; a seek lands where it aims unless no cursor can
be there. The mark says whether anything could have been written since the file was loaded, so bytes
without a mark are the loaded ones, after any calls.
-/

namespace SectionArchive

namespace Bytes

variable {bs new : Bytes} {at_ k : Nat}

theorem length_overwrite (bs : Bytes) (at_ : Nat) (new : Bytes) :
    (bs.overwrite at_ new).length = max bs.length (at_ + new.length) := by
  simp only [overwrite, List.length_append, List.length_take, List.length_replicate,
    List.length_drop]
  omega

/-- What was written over is cut off and padded to where the new bytes begin. -/
theorem length_take_append_replicate (bs : Bytes) (at_ : Nat) :
    (bs.take at_ ++ List.replicate (at_ - bs.length) 0).length = at_ := by
  simp only [List.length_append, List.length_take, List.length_replicate]
  omega

theorem getElem?_overwrite_of_lt (hk : k < at_) :
    (bs.overwrite at_ new)[k]? = some (bs[k]?.getD 0) := by
  have hfront := length_take_append_replicate bs at_
  rw [overwrite, List.append_assoc, List.getElem?_append_left (by rw [hfront]; exact hk)]
  by_cases hold : k < bs.length
  · rw [List.getElem?_append_left (by rw [List.length_take]; omega), List.getElem?_take_of_lt hk,
      List.getElem?_eq_getElem hold, Option.getD_some]
  · have htake : (bs.take at_).length = bs.length := by
      rw [List.length_take]
      omega
    rw [List.getElem?_append_right (by omega), htake, List.getElem?_replicate_of_lt (by omega),
      List.getElem?_eq_none (Nat.not_lt.1 hold), Option.getD_none]

theorem getElem?_overwrite_add (hk : k < new.length) :
    (bs.overwrite at_ new)[at_ + k]? = new[k]? := by
  have hfront := length_take_append_replicate bs at_
  rw [overwrite, List.append_assoc, List.getElem?_append_right (by omega), hfront,
    List.getElem?_append_left (by omega), Nat.add_sub_cancel_left]

theorem getElem?_overwrite_of_le (hk : at_ + new.length ≤ k) :
    (bs.overwrite at_ new)[k]? = bs[k]? := by
  have hfront : (bs.take at_ ++ List.replicate (at_ - bs.length) 0 ++ new).length =
      at_ + new.length := by
    rw [List.length_append, length_take_append_replicate]
  rw [overwrite, List.getElem?_append_right (by omega), hfront, List.getElem?_drop,
    Nat.add_sub_cancel' hk]

end Bytes

namespace Payload

variable {p q : Payload} {data got : Bytes}

def remaining (p : Payload) : Nat := p.bytes.length - p.position

def Ahead (p : Payload) (got : Bytes) : Prop :=
  ∀ k < got.length, got[k]? = p.bytes[p.position + k]?

def advance (p : Payload) (n : Nat) : Payload := { p with position := p.position + n }

/-- The bytes before the cursor are kept, the gap to them filled with zeros, then come the bytes of
`data`, then those that were there. -/
structure Overwritten (p : Payload) (data : Bytes) (q : Payload) : Prop where
  position : q.position = p.position + data.length
  dirty : q.dirty = true
  length : q.bytes.length = max p.bytes.length (p.position + data.length)
  before : ∀ k < p.position, q.bytes[k]? = some (p.bytes[k]?.getD 0)
  inside : ∀ k < data.length, q.bytes[p.position + k]? = data[k]?
  behind : ∀ k, p.position + data.length ≤ k → q.bytes[k]? = p.bytes[k]?

/-- Where a seek should lead, as a distance from where it is counted. -/
def Aims (p : Payload) : SeekFrom → Int → Prop
  | .start offset, target => target = offset
  | .stop offset, target => target - p.bytes.length = offset
  | .current offset, target => target - p.position = offset

end Payload

/-- A call to a file: an edit, or the request that what was written be passed on. -/
inductive FileCall
  | edit (e : Edit)
  | flush

inductive FileReply
  | done
  | count (n : Nat)
  | position (n : Nat)
  | bytes (bs : Bytes)
  | text (s : String)

def Edit.answer (p : Payload) : Edit → Except Fault FileReply
  | .write data => .ok (.count data.length)
  | .writeAll _ | .replace _ => .ok .done
  | .read n => .ok (.bytes (p.read n).1)
  | .readExact n => (p.readExact n).1.map .bytes
  | .readToEnd => .ok (.bytes p.readToEnd.1)
  | .readText => p.readText.1.map .text
  | .seek whence => (p.seek whence).1.map .position

namespace FileCall

def answer (p : Payload) : FileCall → Except Fault FileReply
  | .edit e => e.answer p
  | .flush => .ok .done

def apply (p : Payload) : FileCall → Payload
  | .edit e => e.apply p
  | .flush => p

/-- The call writes or replaces. Writing all of nothing is no call to write, unlike writing
nothing. -/
def marks : FileCall → Bool
  | .edit (.write _) | .edit (.replace _) => true
  | .edit (.writeAll data) => !data.isEmpty
  | _ => false

/-- What a call does to a file `p`: the answer, and the file behind it. -/
inductive Does (p : Payload) : FileCall → Except Fault FileReply → Payload → Prop
  | write {data : Bytes} {q : Payload} (h : p.Overwritten data q) :
      Does p (.edit (.write data)) (.ok (.count data.length)) q
  | writeNothing : Does p (.edit (.writeAll [])) (.ok .done) p
  | writeAll {data : Bytes} {q : Payload} (hsome : data ≠ []) (h : p.Overwritten data q) :
      Does p (.edit (.writeAll data)) (.ok .done) q
  | replace (data : Bytes) :
      Does p (.edit (.replace data)) (.ok .done) { bytes := data, position := 0, dirty := true }
  | read {n : Nat} {got : Bytes} (h : p.Ahead got) (hlength : got.length = min n p.remaining) :
      Does p (.edit (.read n)) (.ok (.bytes got)) (p.advance got.length)
  | readExact {n : Nat} {got : Bytes} (h : p.Ahead got) (hlength : got.length = n) :
      Does p (.edit (.readExact n)) (.ok (.bytes got)) (p.advance got.length)
  | readTooMuch {n : Nat} (h : p.remaining < n) :
      Does p (.edit (.readExact n)) (.error .shortRead) (p.advance p.remaining)
  | readToEnd {got : Bytes} (h : p.Ahead got) (hlength : got.length = p.remaining) :
      Does p (.edit .readToEnd) (.ok (.bytes got)) (p.advance got.length)
  | readText {got : Bytes} {s : String} (h : p.Ahead got) (hlength : got.length = p.remaining)
      (htext : got.toString? = some s) :
      Does p (.edit .readText) (.ok (.text s)) (p.advance got.length)
  | readNoText {got : Bytes} (h : p.Ahead got) (hlength : got.length = p.remaining)
      (htext : got.toString? = none) :
      Does p (.edit .readText) (.error .invalidText) (p.advance got.length)
  | seek {whence : SeekFrom} {target : Nat} (h : p.Aims whence target)
      (hrange : target < UInt64.size) :
      Does p (.edit (.seek whence)) (.ok (.position target)) { p with position := target }
  | seekNowhere {whence : SeekFrom} {target : Int} (h : p.Aims whence target)
      (hrange : target < 0 ∨ UInt64.size ≤ target) :
      Does p (.edit (.seek whence)) (.error .seekOutOfRange) p
  | flush : Does p .flush (.ok .done) p

end FileCall

namespace Payload

variable {p : Payload}

theorem overwritten_write (p : Payload) (data : Bytes) : p.Overwritten data (p.write data) where
  position := rfl
  dirty := rfl
  length := Bytes.length_overwrite ..
  before := fun _ hk => Bytes.getElem?_overwrite_of_lt hk
  inside := fun _ hk => Bytes.getElem?_overwrite_add hk
  behind := fun _ hk => Bytes.getElem?_overwrite_of_le hk

/-- There is one way to write over a file. -/
theorem Overwritten.unique {q q' : Payload} {data : Bytes} (h : p.Overwritten data q)
    (h' : p.Overwritten data q') : q = q' := by
  have hbytes : q.bytes = q'.bytes := by
    apply List.ext_getElem?
    intro k
    by_cases hbefore : k < p.position
    · rw [h.before k hbefore, h'.before k hbefore]
    · by_cases hbehind : p.position + data.length ≤ k
      · rw [h.behind k hbehind, h'.behind k hbehind]
      · obtain ⟨j, rfl⟩ := Nat.exists_eq_add_of_le (Nat.not_lt.1 hbefore)
        rw [h.inside j (by omega), h'.inside j (by omega)]
  have hposition := h.position.trans h'.position.symm
  have hdirty := h.dirty.trans h'.dirty.symm
  cases q
  cases q'
  rw [Payload.mk.injEq]
  exact ⟨hbytes, hposition, hdirty⟩

theorem Ahead.unique {got got' : Bytes} (h : p.Ahead got) (h' : p.Ahead got')
    (hlength : got.length = got'.length) : got = got' := by
  apply List.ext_getElem?
  intro k
  by_cases hk : k < got.length
  · rw [h k hk, h' k (hlength ▸ hk)]
  · rw [List.getElem?_eq_none (Nat.not_lt.1 hk),
      List.getElem?_eq_none (hlength ▸ Nat.not_lt.1 hk)]

theorem Ahead.length_le {got : Bytes} (h : p.Ahead got) : got.length ≤ p.remaining := by
  by_contra hlonger
  have hbehind : p.bytes[p.position + p.remaining]? = none := by
    apply List.getElem?_eq_none
    rw [remaining]
    omega
  have hk := h p.remaining (Nat.not_le.1 hlonger)
  rw [hbehind, List.getElem?_eq_getElem (Nat.not_le.1 hlonger)] at hk
  cases hk

/-- Reading gives what lies ahead, as much of it as there is. -/
theorem read_eq (p : Payload) (n : Nat) :
    ∃ got, p.read n = (got, p.advance got.length) ∧ p.Ahead got ∧
      got.length = min n p.remaining := by
  refine ⟨(p.bytes.drop p.position).take n, rfl, fun k hk => ?_, ?_⟩
  · rw [List.length_take] at hk
    rw [List.getElem?_take_of_lt (by omega), List.getElem?_drop]
  · rw [List.length_take, List.length_drop, remaining]

theorem readToEnd_eq (p : Payload) :
    ∃ got, p.readToEnd = (got, p.advance got.length) ∧ p.Ahead got ∧
      got.length = p.remaining := by
  obtain ⟨got, hread, hahead, hlength⟩ := p.read_eq p.bytes.length
  refine ⟨got, hread, hahead, ?_⟩
  rw [hlength, remaining]
  omega

/-- Bytes that lie ahead, as many as can be read, are those that are read. -/
theorem Ahead.read_eq {got : Bytes} {n : Nat} (h : p.Ahead got)
    (hlength : got.length = min n p.remaining) : p.read n = (got, p.advance got.length) := by
  obtain ⟨got', hread, hahead, hlength'⟩ := Payload.read_eq p n
  obtain rfl := h.unique hahead (hlength.trans hlength'.symm)
  exact hread

theorem Ahead.readToEnd_eq {got : Bytes} (h : p.Ahead got) (hlength : got.length = p.remaining) :
    p.readToEnd = (got, p.advance got.length) := by
  obtain ⟨got', hread, hahead, hlength'⟩ := Payload.readToEnd_eq p
  obtain rfl := h.unique hahead (hlength.trans hlength'.symm)
  exact hread

theorem aims_iff {whence : SeekFrom} {target : Int} :
    p.Aims whence target ↔ p.target whence = target := by
  cases whence with
  | start offset => exact eq_comm
  | stop offset => simp only [Aims, Payload.target]; omega
  | current offset => simp only [Aims, Payload.target]; omega

theorem seek_of_aims {whence : SeekFrom} {target : Nat} (h : p.Aims whence target)
    (hrange : target < UInt64.size) :
    p.seek whence = (.ok target, { p with position := target }) := by
  have htarget := aims_iff.1 h
  have hinside : 0 ≤ p.target whence ∧ p.target whence < UInt64.size := by omega
  simp only [Payload.seek, if_pos hinside]
  simp only [htarget, Int.toNat_natCast]

theorem seek_of_outside {whence : SeekFrom} {target : Int} (h : p.Aims whence target)
    (hrange : target < 0 ∨ UInt64.size ≤ target) :
    p.seek whence = (.error .seekOutOfRange, p) := by
  have htarget := aims_iff.1 h
  have houtside : ¬ (0 ≤ p.target whence ∧ p.target whence < UInt64.size) := by omega
  simp only [Payload.seek, if_neg houtside]

/-! ### Reading and writing in pieces -/

def readPieces : (sizes : List Nat) → Payload → Bytes × Payload
  | [], p => ([], p)
  | n :: rest, p =>
    let (got, p) := p.read n
    let (more, p) := readPieces rest p
    (got ++ more, p)

theorem read_add (p : Payload) (m n : Nat) :
    p.read (m + n) =
      ((p.read m).1 ++ ((p.read m).2.read n).1, ((p.read m).2.read n).2) := by
  have hsplit : (p.bytes.drop p.position).take (m + n) =
      (p.read m).1 ++ ((p.read m).2.read n).1 := by
    simp only [Payload.read, ← List.drop_drop]
    by_cases hm : m ≤ (p.bytes.drop p.position).length
    · rw [List.take_add, List.length_take_of_le hm]
    · have hall : ∀ k, m ≤ k → (p.bytes.drop p.position).take k = p.bytes.drop p.position :=
        fun k hk => List.take_of_length_le (by omega)
      rw [hall m (Nat.le_refl m), hall (m + n) (Nat.le_add_right m n), List.drop_length,
        List.take_nil, List.append_nil]
  have hlength := congrArg List.length hsplit
  rw [List.length_append] at hlength
  rw [Prod.mk.injEq]
  refine ⟨hsplit, ?_⟩
  simp only [Payload.read] at hlength ⊢
  rw [hlength, Nat.add_assoc]

/-- Reading in pieces of any sizes, empty ones and such behind the end included, is reading at
once. -/
theorem readPieces_eq (sizes : List Nat) (p : Payload) :
    p.readPieces sizes = p.read sizes.sum := by
  induction sizes generalizing p with
  | nil => simp [readPieces, Payload.read]
  | cons n rest ih =>
    rw [List.sum_cons, read_add]
    simp only [readPieces, ih]

def writer : Writer Payload := fun data p => .ok data.length (p.write data)

/-- Offering the rest again until all is taken asks a file once, and not at all for nothing. -/
theorem writeAll_writer (data : Bytes) (p : Payload) :
    Writer.writeAll writer data p = .ok () (p.writeAll data) := by
  unfold Writer.writeAll
  by_cases hnone : data = []
  · subst hnone
    rfl
  · have hlength : data.length ≠ 0 := fun h => hnone (List.length_eq_zero_iff.1 h)
    have hempty : data.isEmpty = false := List.isEmpty_eq_false_iff.2 hnone
    simp only [dif_neg hnone, bind, EStateM.bind, writer, dif_neg hlength, List.drop_length]
    unfold Writer.writeAll
    simp only [dif_pos, Payload.writeAll, hempty, Bool.false_eq_true, if_false]
    rfl

end Payload

namespace FileCall

open Payload

/-- Each call does to a payload what it does to a file. -/
theorem does_apply (p : Payload) (call : FileCall) : Does p call (call.answer p) (call.apply p) := by
  cases call with
  | flush => exact .flush
  | edit e =>
    cases e with
    | write data => exact .write (p.overwritten_write data)
    | replace data => exact .replace data
    | writeAll data =>
      cases data with
      | nil => exact .writeNothing
      | cons b rest => exact .writeAll (List.cons_ne_nil b rest) (p.overwritten_write _)
    | read n =>
      obtain ⟨got, hread, hahead, hlength⟩ := p.read_eq n
      simp only [answer, apply, Edit.answer, Edit.apply, hread]
      exact .read hahead hlength
    | readExact n =>
      obtain ⟨got, hread, hahead, hlength⟩ := p.read_eq n
      simp only [answer, apply, Edit.answer, Edit.apply, Payload.readExact, hread]
      by_cases hshort : p.remaining < n
      · have hall : got.length = p.remaining := by omega
        rw [if_neg (by omega), hall]
        exact .readTooMuch hshort
      · have hall : got.length = n := by omega
        rw [if_pos hall]
        exact .readExact hahead hall
    | readToEnd =>
      obtain ⟨got, hread, hahead, hlength⟩ := p.readToEnd_eq
      simp only [answer, apply, Edit.answer, Edit.apply, hread]
      exact .readToEnd hahead hlength
    | readText =>
      obtain ⟨got, hread, hahead, hlength⟩ := p.readToEnd_eq
      simp only [answer, apply, Edit.answer, Edit.apply, Payload.readText, hread]
      cases htext : got.toString? with
      | some s => exact .readText hahead hlength htext
      | none => exact .readNoText hahead hlength htext
    | seek whence =>
      simp only [answer, apply, Edit.answer, Edit.apply]
      have haims : p.Aims whence (p.target whence) := aims_iff.2 rfl
      by_cases hrange : p.target whence < 0 ∨ UInt64.size ≤ p.target whence
      · rw [seek_of_outside haims hrange]
        exact .seekNowhere haims hrange
      · obtain ⟨target, htarget⟩ := Int.eq_ofNat_of_zero_le (a := p.target whence) (by omega)
        rw [htarget] at haims
        have hlt : target < UInt64.size := by omega
        rw [seek_of_aims haims hlt]
        exact .seek haims hlt

/-- What a call does to a file leaves no choice. -/
theorem Does.eq {p q : Payload} {call : FileCall} {a : Except Fault FileReply}
    (h : Does p call a q) : a = call.answer p ∧ q = call.apply p := by
  cases h with
  | write h => exact ⟨rfl, h.unique (p.overwritten_write _)⟩
  | writeNothing => exact ⟨rfl, rfl⟩
  | @writeAll data _ hsome h =>
    have hwrite : p.writeAll data = p.write data :=
      if_neg (Bool.eq_false_iff.1 (List.isEmpty_eq_false_iff.2 hsome))
    exact ⟨rfl, (h.unique (p.overwritten_write data)).trans hwrite.symm⟩
  | replace data => exact ⟨rfl, rfl⟩
  | read h hlength =>
    simp only [answer, apply, Edit.answer, Edit.apply, h.read_eq hlength, and_self]
  | @readExact n got h hlength =>
    have hle := h.length_le
    have hread := h.read_eq (n := n) (by omega)
    simp only [answer, apply, Edit.answer, Edit.apply, Payload.readExact, hread, hlength, if_true,
      Except.map, and_self]
  | @readTooMuch n hshort =>
    obtain ⟨got, hread, hahead, hlength⟩ := p.read_eq n
    have hall : got.length = p.remaining := by omega
    have hless : ¬ p.remaining = n := by omega
    simp only [answer, apply, Edit.answer, Edit.apply, Payload.readExact, hread, hall, hless,
      if_false, Except.map, and_self]
  | readToEnd h hlength =>
    simp only [answer, apply, Edit.answer, Edit.apply, h.readToEnd_eq hlength, and_self]
  | readText h hlength htext =>
    simp only [answer, apply, Edit.answer, Edit.apply, Payload.readText, h.readToEnd_eq hlength,
      htext, Except.map, and_self]
  | readNoText h hlength htext =>
    simp only [answer, apply, Edit.answer, Edit.apply, Payload.readText, h.readToEnd_eq hlength,
      htext, Except.map, and_self]
  | @seek whence target h hrange =>
    simp only [answer, apply, Edit.answer, Edit.apply, seek_of_aims h hrange, Except.map, and_self]
  | @seekNowhere whence target h hrange =>
    simp only [answer, apply, Edit.answer, Edit.apply, seek_of_outside h hrange, Except.map,
      and_self]
  | flush => exact ⟨rfl, rfl⟩

theorem dirty_apply (p : Payload) (call : FileCall) :
    (call.apply p).dirty = (p.dirty || call.marks) := by
  cases call with
  | flush => exact (Bool.or_false _).symm
  | edit e =>
    cases e with
    | write data => exact (Bool.or_true _).symm
    | replace data => exact (Bool.or_true _).symm
    | writeAll data =>
      cases data with
      | nil => exact (Bool.or_false _).symm
      | cons b rest => exact (Bool.or_true _).symm
    | seek whence =>
      simp only [apply, Edit.apply, Payload.seek, marks, Bool.or_false]
      split <;> rfl
    | _ => exact (Bool.or_false _).symm

theorem bytes_apply_of_clean {p : Payload} {call : FileCall} (h : (call.apply p).dirty = false) :
    p.dirty = false ∧ (call.apply p).bytes = p.bytes := by
  cases call with
  | flush => exact ⟨h, rfl⟩
  | edit e => exact Edit.bytes_apply_of_clean h

/-! ### All calls -/

def applyAll (calls : List FileCall) (p : Payload) : Payload := calls.foldl apply p

theorem dirty_applyAll (calls : List FileCall) (p : Payload) :
    (applyAll calls p).dirty = (p.dirty || calls.any marks) := by
  induction calls generalizing p with
  | nil => exact (Bool.or_false _).symm
  | cons call rest ih =>
    calc (applyAll (call :: rest) p).dirty
        = (applyAll rest (call.apply p)).dirty := rfl
      _ = (p.dirty || (call :: rest).any marks) := by
          rw [ih, dirty_apply, Bool.or_assoc, List.any_cons]

/-- As long as there is no mark, nothing was changed. -/
theorem bytes_applyAll_of_clean {calls : List FileCall} {p : Payload}
    (h : (applyAll calls p).dirty = false) :
    p.dirty = false ∧ (applyAll calls p).bytes = p.bytes := by
  induction calls generalizing p with
  | nil => exact ⟨h, rfl⟩
  | cons call rest ih =>
    obtain ⟨hclean, hbytes⟩ := ih h
    obtain ⟨hclean', hbytes'⟩ := bytes_apply_of_clean hclean
    exact ⟨hclean', hbytes.trans hbytes'⟩

end FileCall

namespace Payload

open FileCall

/-- After any calls to a payload that was loaded, or is new and so was loaded from no bytes: it
carries the mark just if one of the calls wrote or replaced, and without the mark the bytes are the
loaded ones. The next call, whatever it is, does what it does to a file and nothing else. Reading in
pieces is reading at once, and writing until all is taken is one write, or none for no bytes. -/
theorem is_file_with_sound_mark (b : Bytes) (calls : List FileCall) :
    let p := applyAll calls (.ofLoaded b)
    (p.dirty = true ↔ ∃ call ∈ calls, call.marks = true) ∧
      (p.dirty = false → p.bytes = b) ∧
      (∀ call a q, Does p call a q ↔ a = call.answer p ∧ q = call.apply p) ∧
      (∀ sizes, p.readPieces sizes = p.read sizes.sum) ∧
      ∀ data, Writer.writeAll writer data p = .ok () (p.writeAll data) := by
  intro p
  have hmark : p.dirty = calls.any marks := (dirty_applyAll calls _).trans (Bool.false_or _)
  refine ⟨?_, fun hclean => (bytes_applyAll_of_clean hclean).2, fun call a q => ?_,
    fun sizes => readPieces_eq sizes p, fun data => writeAll_writer data p⟩
  · rw [hmark, List.any_eq_true]
  · constructor
    · exact Does.eq
    · rintro ⟨rfl, rfl⟩
      exact does_apply p call

/-- For one, two bytes that were read of three, a seek that failed and an empty text that was
written. -/
theorem is_file_with_sound_mark_without_writes :
    let calls : List FileCall :=
      [.edit (.read 2), .edit (.seek (.stop (-5))), .edit (.writeAll []), .flush]
    let p := applyAll calls (.ofLoaded [1, 2, 3])
    p.dirty = false ∧ p.bytes = [1, 2, 3] ∧
      ∀ call a q, Does p call a q ↔ a = call.answer p ∧ q = call.apply p := by
  intro calls p
  have hclean : p.dirty = false := rfl
  obtain ⟨-, hbytes, hdoes, -, -⟩ := is_file_with_sound_mark [1, 2, 3] calls
  exact ⟨hclean, hbytes hclean, hdoes⟩

/-- Even writing nothing fills the gap behind the end. -/
example : applyAll [.edit (.seek (.stop 2)), .edit (.write [])] (.ofLoaded [1]) =
    { bytes := [1, 0, 0], position := 3, dirty := true } := by decide

end Payload

end SectionArchive
