import Mathlib
import SectionArchive.CommandLine.Run
import SectionArchive.Proofs.Opening
import SectionArchive.Proofs.WorkingDirectories
/-!
What commands leave. On given files a command gives a value or fails, and either way leaves files
behind; what was printed before has no say in it. Operations on a container in a file are told from
the container alone as long as file and container agree.
-/

namespace SectionArchive

namespace CommandLine

variable {α β ε : Type} {m : Command α} {k : α → Command β} {a : α} {b : β} {e : Failure}
  {cause : ε → Failure} {d d' d'' : WorkingDirectory} {f f' : FileContainer}

/-- On the files `d` the command gives `a` and leaves `d'`. -/
def Gives (m : Command α) (d : WorkingDirectory) (a : α) (d' : WorkingDirectory) : Prop :=
  ∀ c : Console, c.files = d → ∃ c', m c = .ok a c' ∧ c'.files = d'

def Fails (m : Command α) (d : WorkingDirectory) (e : Failure) (d' : WorkingDirectory) : Prop :=
  ∀ c : Console, c.files = d → ∃ c', m c = .error e c' ∧ c'.files = d'

theorem gives_pure (a : α) (d : WorkingDirectory) : Gives (pure a) d a d :=
  fun c hc => ⟨c, rfl, hc⟩

theorem Gives.bind (h : Gives m d a d') (hk : Gives (k a) d' b d'') : Gives (m >>= k) d b d'' := by
  intro c hc
  obtain ⟨c', hm, hc'⟩ := h c hc
  obtain ⟨c'', hk, hc''⟩ := hk c' hc'
  refine ⟨c'', ?_, hc''⟩
  simp only [Bind.bind, EStateM.bind, hm, hk]

theorem Fails.bind (h : Fails m d e d') (k : α → Command β) : Fails (m >>= k) d e d' := by
  intro c hc
  obtain ⟨c', hm, hc'⟩ := h c hc
  refine ⟨c', ?_, hc'⟩
  simp only [Bind.bind, EStateM.bind, hm]

/-! ### Single commands -/

open Command

theorem gives_say (line : String) (d : WorkingDirectory) : Gives (say line) d () d :=
  fun _ hc => ⟨_, rfl, hc⟩

theorem gives_warn (line : String) (d : WorkingDirectory) : Gives (warn line) d () d :=
  fun _ hc => ⟨_, rfl, hc⟩

theorem gives_ofFiles {look : WorkingDirectory → Except ε α} (h : look d = .ok a) :
    Gives (ofFiles cause look) d a d := by
  rintro c rfl
  refine ⟨c, ?_, rfl⟩
  simp only [ofFiles, Bind.bind, EStateM.bind, get, getThe, MonadStateOf.get, EStateM.get, h]
  rfl

theorem gives_onFiles {act : WorkingDirectory → Except ε (α × WorkingDirectory)}
    (h : act d = .ok (a, d')) : Gives (onFiles cause act) d a d' := by
  rintro c rfl
  refine ⟨{ c with files := d' }, ?_, rfl⟩
  simp only [onFiles, Bind.bind, EStateM.bind, get, getThe, MonadStateOf.get, EStateM.get, h]
  rfl

section

variable {act : WorkingDirectory → FileContainer → Except Error α × WorkingDirectory × FileContainer}

theorem gives_attempt {r : Except Error α} (h : act d f = (r, d', f')) :
    Gives (attempt act f) d (r, f') d' := by
  rintro c rfl
  refine ⟨{ c with files := d' }, ?_, rfl⟩
  simp only [attempt, Bind.bind, EStateM.bind, get, getThe, MonadStateOf.get, EStateM.get, h]
  rfl

theorem gives_operate (h : act d f = (.ok a, d', f')) : Gives (operate act f) d (a, f') d' :=
  (gives_attempt h).bind (gives_pure _ _)

end

/-! ### Runs -/

theorem run_of_gives {words : List String} {request : Request}
    (hwords : Request.ofWords words = .ok request) (h : Gives request.perform d () d') :
    (run words d).exitCode = 0 ∧ (run words d).files = d' := by
  obtain ⟨c, hrun, hc⟩ := h { files := d } rfl
  unfold run
  rw [hwords]
  simp only [hrun, true_and]
  exact hc

end CommandLine

/-! ### Containers in files -/

namespace FileContainer

variable {d : WorkingDirectory} {f : FileContainer} {path : String} {place : Place} {bs : Bytes}

/-- The file holds what the container's storage is thought to hold. -/
def Agrees (d : WorkingDirectory) (f : FileContainer) : Prop :=
  d.content f.place = f.container.storage.content

theorem refresh_of_agrees (h : f.Agrees d) : f.refresh d = f := by
  unfold refresh
  rw [h]

theorem flush_of_agrees (h : f.Agrees d) : flush d f = d := by
  unfold Agrees at h
  unfold flush
  rw [if_pos h]

/-- An operation that leaves the storage's bytes alone leaves all files alone. -/
theorem run_of_ok {α : Type} {m : Container.Action α} {a : α} {c : Container} (h : f.Agrees d)
    (hm : m f.container = .ok a c) (hc : c.storage.content = f.container.storage.content) :
    run m d f = (.ok a, d, { f with container := c }) := by
  have hagrees : Agrees d { f with container := c } := h.trans hc.symm
  unfold run
  rw [refresh_of_agrees h, hm]
  simp only [flush_of_agrees hagrees]

theorem checkPath_of_resolve (h : d.resolve path = .ok place)
    (hplace : d.node? place ≠ some .directory) : checkPath d path = .ok () := by
  have hpath : ¬ path.isEmpty = true := by
    rw [String.isEmpty_iff]
    exact WorkingDirectory.ne_empty_of_resolve h
  have hdir : ¬ d.isDirectory path = true := by
    rw [WorkingDirectory.isDirectory_of_resolve h]
    exact hplace
  unfold checkPath
  rw [if_neg (not_or.2 ⟨hpath, hdir⟩)]

variable {maxSections : UInt32} {header : MainHeader} {headers : List SectionHeader}

theorem openPath_eq (hopen : d.openFile path = .ok (place, bs)) (maxSections : UInt32) :
    openPath d path maxSections = (Opening.verdict maxSections bs).map fun r =>
      ⟨place, Opening.opened maxSections
        { content := bs, position := bs.length, refuses := readOnly } r.1 r.2⟩ := by
  obtain ⟨-, hresolve, hnode⟩ := WorkingDirectory.openFile_eq_ok_iff.1 hopen
  have hplace : d.node? place ≠ some .directory := by
    rw [hnode]
    nofun
  have hopened := @Container.ofStorage_of_readable { content := bs, refuses := readOnly } rfl rfl
    maxSections
  unfold openPath openWith
  rw [checkPath_of_resolve hresolve hplace, hopen]
  cases hverdict : Opening.verdict maxSections bs with
  | error e =>
    rw [hverdict] at hopened
    simp only [bind, Except.bind, hopened]
    rfl
  | ok r =>
    rw [hverdict] at hopened
    simp only [bind, Except.bind, hopened]
    rfl

/-- A file that can be opened and holds a container gives the container. -/
theorem openPath_of_verdict (hopen : d.openFile path = .ok (place, bs))
    (hverdict : Opening.verdict maxSections bs = .ok (header, headers)) :
    openPath d path maxSections = .ok ⟨place, Opening.opened maxSections
      { content := bs, position := bs.length, refuses := readOnly } header headers⟩ := by
  rw [openPath_eq hopen, hverdict]
  rfl

end FileContainer

end SectionArchive
