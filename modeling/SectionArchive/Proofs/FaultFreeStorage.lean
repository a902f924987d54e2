import Mathlib
import SectionArchive.Section.Reading
/-!
What the operations do on a storage that does not refuse them. Reading moves the cursor alone, and
storing an image leaves the image and nothing else, whatever was there and wherever the cursor was.
-/

namespace SectionArchive

namespace Storage

variable {s : Storage}

def FaultFree (s : Storage) : Prop := ∀ op, s.refuses op = none

structure Readable (s : Storage) : Prop where
  seek : s.refuses .seek = none
  read : s.refuses .read = none

/-- The storage refuses nothing but, it may be, to go to places behind its end. -/
def Obliging (s : Storage) : Prop := ∀ op, (∀ position, op ≠ .reach position) → s.refuses op = none

theorem FaultFree.obliging (h : s.FaultFree) : s.Obliging := fun op _ => h op

theorem Obliging.readable (h : s.Obliging) : s.Readable := ⟨h _ nofun, h _ nofun⟩

theorem FaultFree.readable (h : s.FaultFree) : s.Readable := h.obliging.readable

def Moved (s s' : Storage) : Prop := ∃ position, s' = { s with position }

theorem Moved.refl (s : Storage) : s.Moved s := ⟨s.position, rfl⟩

theorem ask_eq {op : StorageOp} (h : s.refuses op = none) : ask op s = .ok () s := by
  simp only [ask, h]

theorem ask_of_refused {op : StorageOp} {f : Fault} (h : s.refuses op = some f) :
    ask op s = .error f s := by
  simp only [ask, h]

/-- Going to a position inside the content, or as far behind it as the storage allows. -/
def Reaches (s : Storage) (position : Nat) : Prop :=
  s.content.length < position → s.refuses (.reach position) = none

theorem FaultFree.reaches (h : s.FaultFree) (position : Nat) : s.Reaches position := fun _ => h _

theorem reaches_of_le {position : Nat} (h : position ≤ s.content.length) : s.Reaches position :=
  fun hlt => absurd h (Nat.not_le.2 hlt)

theorem seek_eq (h : s.refuses .seek = none) {position : Nat} (hreach : s.Reaches position) :
    seek position s = .ok () { s with position } := by
  simp only [seek, bind, EStateM.bind, ask_eq h, get, getThe, MonadStateOf.get, EStateM.get]
  by_cases hlt : s.content.length < position
  · simp only [if_pos hlt, EStateM.bind, ask_eq (hreach hlt)]
    rfl
  · simp only [if_neg hlt]
    rfl

theorem seek_zero (h : s.refuses .seek = none) : seek 0 s = .ok () { s with position := 0 } :=
  seek_eq h (reaches_of_le (Nat.zero_le _))

theorem seek_of_refused {f : Fault} (h : s.refuses .seek = some f) (position : Nat) :
    seek position s = .error f s := by
  simp only [seek, bind, EStateM.bind, ask_of_refused h]

/-- Either the cursor is sent there, or that is refused. -/
theorem seek_cases (position : Nat) (s : Storage) :
    seek position s = .ok () { s with position } ∨
      ∃ op f, s.refuses op = some f ∧ seek position s = .error f s := by
  cases hseek : s.refuses .seek with
  | some f => exact .inr ⟨.seek, f, hseek, seek_of_refused hseek position⟩
  | none =>
    by_cases hreach : s.Reaches position
    · exact .inl (seek_eq hseek hreach)
    · obtain ⟨hlt, hrefused⟩ := Classical.not_imp.1 hreach
      obtain ⟨f, hf⟩ := Option.ne_none_iff_exists'.1 hrefused
      refine .inr ⟨.reach position, f, hf, ?_⟩
      simp only [seek, bind, EStateM.bind, ask_eq hseek, get, getThe, MonadStateOf.get,
        EStateM.get, if_pos hlt, ask_of_refused hf]

theorem seekEnd_eq (h : s.refuses .seek = none) :
    seekEnd s = .ok s.content.length { s with position := s.content.length } := by
  simp only [seekEnd, bind, EStateM.bind, ask_eq h]
  rfl

theorem read_eq (h : s.refuses .read = none) (n : Nat) :
    read n s = .ok ((s.content.drop s.position).take n)
      { s with position := s.position + ((s.content.drop s.position).take n).length } := by
  by_cases hn : n = 0
  · subst hn
    simp [read, pure, EStateM.pure]
  · simp only [read, hn, if_false, bind, EStateM.bind, ask_eq h]
    rfl

/-- Reading gives what is behind the cursor, or is refused. -/
theorem read_cases (n : Nat) (s : Storage) :
    (∃ position, read n s = .ok ((s.content.drop s.position).take n) { s with position }) ∨
      ∃ f, s.refuses .read = some f ∧ read n s = .error f s := by
  by_cases hn : n = 0
  · subst hn
    exact .inl ⟨s.position, by simp [read, pure, EStateM.pure]⟩
  · cases hread : s.refuses .read with
    | none => exact .inl ⟨_, read_eq hread n⟩
    | some f =>
      refine .inr ⟨f, rfl, ?_⟩
      simp only [read, hn, if_false, bind, EStateM.bind, ask_of_refused hread]

theorem readToEnd_eq (h : s.refuses .read = none) :
    readToEnd s = .ok (s.content.drop s.position) { s with position := s.content.length } := by
  simp only [readToEnd, bind, EStateM.bind, ask_eq h]
  rfl

/-- What storing an image comes to, request by request. -/
theorem store_outcome (image : Bytes) (s : Storage) :
    store image s =
      match s.refuses .seek, s.refuses .write, s.refuses .flush, s.refuses .setLength with
      | some f, _, _, _ => .error f s
      | none, some f, _, _ => .error f { s with position := 0 }
      | none, none, some f, _ | none, none, none, some f =>
        .error f { s with
          content := image ++ s.content.drop image.length, position := image.length }
      | none, none, none, none =>
        .ok () { s with content := image, position := image.length } := by
  have hwhole : s.content.overwrite 0 image = image ++ s.content.drop image.length := by
    simp [Bytes.overwrite]
  have hcut : (image ++ s.content.drop image.length).resize image.length = image := by
    simp [Bytes.resize]
  cases hseek : s.refuses .seek with
  | some f => simp only [store, bind, EStateM.bind, seek_of_refused hseek]
  | none =>
    simp only [store, write, setLength, ask, bind, EStateM.bind, modify, modifyGet,
      MonadStateOf.modifyGet, EStateM.modifyGet, seek_zero hseek]
    cases s.refuses .write with
    | some f => rfl
    | none =>
      simp only [hwhole, Nat.zero_add]
      cases s.refuses .flush with
      | some f => simp only
      | none =>
        simp only
        cases s.refuses .setLength with
        | some f => simp only
        | none => simp only [hcut]

/-- Storing an image leaves the image. -/
theorem store_eq (h : s.Obliging) (image : Bytes) :
    store image s = .ok () { s with content := image, position := image.length } := by
  simp only [store_outcome, h .seek nofun, h .write nofun, h .flush nofun, h .setLength nofun]

/-- Storing fails only because something is refused. -/
theorem refuses_of_store {image : Bytes} {f : Fault} {s' : Storage}
    (h : store image s = .error f s') : ∃ op, s.refuses op = some f := by
  rw [store_outcome] at h
  split at h
  · next hseek =>
    cases h
    exact ⟨.seek, hseek⟩
  · next hwrite =>
    cases h
    exact ⟨.write, hwrite⟩
  · next hflush =>
    cases h
    exact ⟨.flush, hflush⟩
  · next hcut =>
    cases h
    exact ⟨.setLength, hcut⟩
  · cases h

/-- Storing that succeeds has left the image, whatever else the storage refuses. -/
theorem store_ok {image : Bytes} {s' : Storage} (h : store image s = .ok () s') :
    s' = { s with content := image, position := image.length } := by
  rw [store_outcome] at h
  split at h
  · cases h
  · cases h
  · cases h
  · cases h
  · cases h
    rfl

end Storage

namespace Section

theorem onStorage_of_ok {α : Type} {m : Storage.Action α} {s s' : Storage} {a : α}
    (h : m s = .ok a s') : onStorage m s = .ok a s' := by
  simp only [onStorage, h]

end Section

end SectionArchive
