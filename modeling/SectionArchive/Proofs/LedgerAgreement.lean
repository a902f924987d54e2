import Mathlib
import SectionArchive.Proofs.LedgerEntries
/-!
Containers agree with their ledger. Every section is as the ledger has it, and while the directory
is not marked as changed the bytes on storage open to just the headers in memory. Every operation
keeps this, so a run does, and agreeing containers answer as the ledger has it.
-/

namespace SectionArchive

namespace Container

/-- A container that was not marked as changed: every section has been saved, and the bytes on
storage open to the headers in memory. -/
structure Intact (c : Container) : Prop where
  persisted : ∀ e ∈ c.directory.entries, e.persisted = true
  verdict : ∀ maxSections : UInt32, c.directory.entries.length ≤ maxSections.toNat →
    Opening.verdict maxSections c.storage.content = .ok (c.header, c.directory.headers)

structure Represents (c : Container) (m : Ledger) : Prop where
  memory : InMemory c.storage
  signature : c.header.signature = MainHeader.magic
  version : MainHeader.isKnownVersion c.header.version = true
  limit : c.directory.maxSections = m.maxSections
  size : m.items.length ≤ m.maxSections.toNat
  entries : List.Forall₂ (Shows c.storage.content) c.directory.entries m.items
  intact : c.modified = false → c.Intact

namespace Represents

variable {c : Container} {m : Ledger}

/-- The entry and the item at an index, or neither. -/
theorem at_index (h : Represents c m) (i : Nat) :
    (c.directory.entries[i]? = none ∧ m.items[i]? = none) ∨
      ∃ e s, c.directory.entries[i]? = some e ∧ m.items[i]? = some s ∧
        Shows c.storage.content e s :=
  forall₂_getElem? h.entries i

theorem update_of_none {i : Nat} (hi : m.items[i]? = none) (f : Item → Item) :
    m.update i f = m := by
  simp only [Ledger.update, hi]

/-- Only the cursor of the storage moved. -/
theorem moved (h : Represents c m) {t : Storage} (ht : c.storage.Moved t) :
    Represents { c with storage := t } m := by
  obtain ⟨position, rfl⟩ := ht
  exact ⟨⟨h.memory.free, h.memory.length⟩, h.signature, h.version, h.limit, h.size, h.entries,
    fun hmodified => ⟨(h.intact hmodified).persisted, (h.intact hmodified).verdict⟩⟩

/-- One section's payload was exchanged, and the storage's cursor may have moved. -/
theorem set (h : Represents c m) {i : Nat} {e : Entry} {s : Item}
    (he : c.directory.entries[i]? = some e) (hs : m.items[i]? = some s) {t : Storage}
    (ht : c.storage.Moved t) {p : Option Payload} {f : Item → Item}
    (hshow : Shows c.storage.content { e with payload := p } (f s)) :
    Represents { c with storage := t, directory := c.directory.set i { e with payload := p } }
      (m.update i f) := by
  obtain ⟨position, rfl⟩ := ht
  obtain ⟨hi, rfl⟩ := List.getElem?_eq_some_iff.1 he
  have hitems : m.update i f = { m with items := m.items.set i (f s) } := by
    simp only [Ledger.update, hs]
  rw [hitems]
  refine ⟨⟨h.memory.free, h.memory.length⟩, h.signature, h.version, h.limit, ?_,
    forall₂_set_set h.entries hshow i, fun hmodified => ?_⟩
  · simp only [List.length_set]
    exact h.size
  · obtain ⟨hpersisted, hverdict⟩ := h.intact hmodified
    refine ⟨fun e' he' => ?_, fun maxSections hcount => ?_⟩
    · rcases List.mem_or_eq_of_mem_set he' with he' | rfl
      · exact hpersisted e' he'
      · exact hpersisted c.directory.entries[i] (List.getElem_mem hi)
    · have hheaders : (c.directory.entries.set i { c.directory.entries[i] with payload := p }).map
          Entry.header = c.directory.headers := by
        refine List.ext_getElem (by simp [Directory.headers]) fun j _ _ => ?_
        simp only [Directory.headers, List.getElem_map, List.getElem_set]
        split
        · next hj => simp only [hj]
        · rfl
      have hcount' :
          (c.directory.entries.set i { c.directory.entries[i] with payload := p }).length ≤
            maxSections.toNat := hcount
      rw [List.length_set] at hcount'
      rw [hverdict maxSections hcount']
      exact congrArg (fun headers => Except.ok (c.header, headers)) hheaders.symm

/-- The payload of one section was exchanged in memory. -/
theorem put (h : Represents c m) {i : Nat} {e : Entry} {s : Item}
    (he : c.directory.entries[i]? = some e) (hs : m.items[i]? = some s) {p : Option Payload}
    {f : Item → Item} (hshow : Shows c.storage.content { e with payload := p } (f s)) :
    Represents { c with directory := c.directory.set i { e with payload := p } } (m.update i f) :=
  h.set he hs (.refl _) hshow

/-- Loading brings the current payload into memory. -/
theorem load (h : Represents c m) (i : Nat) :
    (m.items[i]? = none ∧ load i c = .error (.unknownSection i) c) ∨
      ∃ s p c', m.items[i]? = some s ∧ load i c = .ok p c' ∧ p.bytes = s.current ∧
        Represents c' (m.update i Item.fetched) := by
  rw [load_eq]
  rcases h.at_index i with ⟨he, hs⟩ | ⟨e, s, he, hs, hshow⟩
  · exact .inl ⟨hs, by rw [he]⟩
  · rw [he]
    refine .inr ?_
    cases hpayload : e.payload with
    | some p =>
      have hfetched := hshow.fetched (.same e) ⟨p, hpayload⟩
      have hsame : ({ e with payload := e.payload } : Entry) = e := rfl
      have hset : c.directory.set i e = c.directory := by
        obtain ⟨hi, rfl⟩ := List.getElem?_eq_some_iff.1 he
        simp only [Directory.set, List.set_getElem_self]
      have hput := h.put he hs (p := e.payload) (f := Item.fetched) hfetched
      rw [hsame, hset] at hput
      exact ⟨s, p, c, hs, by simp only [hpayload], (hshow.payload_eq hpayload).2.1, hput⟩
    | none =>
      obtain ⟨-, -, -, hholds⟩ := hshow.stored_current hpayload
      obtain ⟨position, hread⟩ := Section.read_eq h.memory.free.readable
        (h.memory.free.reaches e.header.pointer.toNat) i
      rw [hholds i] at hread
      have hread : Section.read i e.header c.storage =
          .ok s.current { c.storage with position } := hread
      simp only [hpayload, hread]
      exact ⟨s, _, _, hs, rfl, rfl, h.set he hs ⟨position, rfl⟩
        (hshow.fetched (.loaded hpayload hholds) ⟨_, rfl⟩)⟩

theorem loadable (h : Represents c m) : c.Loadable := by
  refine ⟨h.memory.free.obliging, fun e he hnone => ?_⟩
  obtain ⟨s, -, hshow⟩ := exists_mem_of_forall₂ h.entries.flip he
  exact ⟨h.memory.free.reaches _, s.current, (hshow.stored_current hnone).2.2.2⟩

theorem valid_requestedFlags (h : Represents c m) :
    ∀ e ∈ c.directory.entries, Flags.Valid e.requestedFlags := by
  intro e he
  obtain ⟨s, -, hshow⟩ := exists_mem_of_forall₂ h.entries.flip he
  rw [hshow.flags]
  exact hshow.valid

/-- Loading more of the payloads changes nothing but where they are. -/
theorem refreshed (h : Represents c m) {d : Container} (hd : Refreshed c d)
    (hloaded : ∀ e ∈ d.directory.entries, ∃ q, e.payload = some q) :
    List.Forall₂ (fun e s => (∃ q, e.payload = some q) ∧ Shows c.storage.content e s.fetched)
      d.directory.entries m.items :=
  forall₂_comp (fun _ _ _ ⟨hin, hfetched⟩ hshow => ⟨hin, hshow.fetched hfetched hin⟩)
    ((List.forall₂_and_left _ _).2 ⟨hloaded, hd.entries.flip⟩) h.entries

/-- All payloads were loaded. -/
theorem fetchAll (h : Represents c m) {d : Container} (hd : Refreshed c d)
    (hloaded : ∀ e ∈ d.directory.entries, ∃ q, e.payload = some q) :
    Represents d { m with items := m.items.map Item.fetched } := by
  have hmemory : InMemory d.storage := by
    refine ⟨fun op => ?_, ?_⟩
    · rw [hd.refuses]
      exact h.memory.free op
    · rw [hd.content]
      exact h.memory.length
  refine ⟨hmemory, hd.header ▸ h.signature, hd.header ▸ h.version,
    hd.maxSections.trans h.limit, ?_, ?_, fun hmodified => ?_⟩
  · simp only [List.length_map]
    exact h.size
  · rw [hd.content, List.forall₂_map_right_iff]
    exact (h.refreshed hd hloaded).imp fun _ _ hboth => hboth.2
  · obtain ⟨hpersisted, hverdict⟩ := h.intact (hd.modified ▸ hmodified)
    refine ⟨fun e' he' => ?_, fun maxSections hcount => ?_⟩
    · obtain ⟨e, he, hfetched⟩ := exists_mem_of_forall₂ hd.entries he'
      rw [hfetched.same_marks.2.2]
      exact hpersisted e he
    · rw [hd.content, hd.header, hd.headers]
      exact hverdict maxSections (by rw [hd.entries.length_eq]; exact hcount)

/-- All payloads were loaded and their image was stored and taken over. -/
theorem settleAll (h : Represents c m) {d : Container} (hd : Refreshed c d)
    (hloaded : ∀ e ∈ d.directory.entries, ∃ q, e.payload = some q) {i : Image}
    (hi : i = imageOf c.header.ty c.header.version c.header.typeExt (m.items.map Item.piece))
    (hfits : ∀ p ∈ m.items.map Item.piece, p.Fits) {t : Storage} (ht : InMemory t)
    (hcontent : t.content = i.bytes) :
    Represents (commit i { d with storage := t }) { m with items := m.items.map Item.settled } := by
  have hlength : i.bytes.length < UInt64.size := by
    rw [← hcontent]
    exact ht.length
  have hplaces : List.Forall₂ (Places i.bytes) i.headers (m.items.map Item.piece) := by
    rw [hi] at hlength ⊢
    exact places_imageOf hfits hlength
  have hsame : d.directory.entries.length = i.headers.length := by
    rw [hplaces.length_eq, List.length_map, ← h.entries.length_eq, hd.entries.length_eq]
  refine ⟨ht, ?_, ?_, hd.maxSections.trans h.limit, ?_, ?_, fun _ => ⟨fun e he => ?_, ?_⟩⟩
  · rw [hi]
    rfl
  · rw [hi]
    exact h.version
  · simp only [List.length_map]
    exact h.size
  · simp only [commit, hcontent]
    refine forall₂_zipWith ?_ (h.refreshed hd hloaded) hplaces
    rintro e s t ⟨⟨q, hq⟩, hshow⟩ hplace
    exact hshow.settled hq hplace
  · simp only [commit] at he
    obtain ⟨j, hj, rfl⟩ := List.getElem_of_mem he
    rw [List.getElem_zipWith]
    rfl
  · -- Whoever opens the image finds the headers that the entries have taken over.
    intro maxSections hcount
    simp only [commit, List.length_zipWith, hsame, Nat.min_self] at hcount
    have hheaders := headers_zipWith_settle hsame
    simp only [commit, Directory.headers, hheaders, hcontent]
    rw [hplaces.length_eq] at hcount
    rw [hi] at hlength ⊢
    exact verdict_imageOf h.version hfits hlength hcount

/-- A save succeeds unless a section is too long, and the ledger keeps up with it. -/
theorem save (h : Represents c m) :
    answer (save c) = m.verdict .save ∧
      (InMemory (after (save c)).storage → Represents (after (save c)) (m.step .save)) := by
  have hpieces : List.Forall₂ (Entry.SavedAs c.storage.content) c.directory.entries
      (m.items.map Item.piece) :=
    List.forall₂_map_right_iff.2 (h.entries.imp fun _ _ hshow => hshow.savedAs)
  obtain ⟨d, hrefreshed, hloaded, hsave⟩ := save_of_loadable h.loadable h.signature h.version
    h.valid_requestedFlags hpieces
  have hboth := h.refreshed hrefreshed hloaded
  have hlong : m.tooLong? =
    (m.items.map Item.piece).zipIdx.findSome? fun p => Container.tooLong? p.2 p.1 := rfl
  rw [← hlong] at hsave
  cases htoo : m.tooLong? with
  | some f =>
    simp only [htoo] at hsave
    simp only [hsave, Ledger.verdict, Ledger.step, htoo, Option.isSome_some, if_true]
    exact ⟨rfl, fun _ => h.fetchAll hrefreshed hloaded⟩
  | none =>
    simp only [htoo] at hsave
    obtain ⟨hfits, hsave⟩ := hsave
    simp only [hsave, Ledger.verdict, Ledger.step, htoo, Option.isSome_none, Bool.false_eq_true,
      if_false]
    exact ⟨rfl, fun hs => h.settleAll hrefreshed hloaded rfl hfits hs rfl⟩

theorem add (h : Represents c m) (o : SectionOptions) :
    answer (perform (.add o) c) = m.verdict (.add o) ∧
      Represents (after (perform (.add o) c)) (m.step (.add o)) := by
  have hfull : c.directory.maxSections.toNat ≤ c.directory.size ↔
      m.maxSections.toNat ≤ m.items.length := by
    rw [h.limit, Directory.size, h.entries.length_eq]
  simp only [Container.perform, silently, add_eq, hfull, Ledger.verdict, Ledger.step]
  by_cases hroom : m.maxSections.toNat ≤ m.items.length
  · simp only [if_pos hroom, Directory.size, h.entries.length_eq, h.limit]
    exact ⟨rfl, h⟩
  · simp only [if_neg hroom]
    refine ⟨rfl, h.memory, h.signature, h.version, h.limit, ?_, ?_,
      fun hmodified => by cases hmodified⟩
    · simp only [List.length_append, List.length_singleton]
      omega
    · refine List.rel_append h.entries (.cons ?_ .nil)
      exact ⟨rfl, rfl, Flags.valid_select _ _, rfl, rfl, fun _ hraw => (by cases hraw), false, rfl,
        fun _ => rfl⟩

theorem remove (h : Represents c m) (i : Nat) :
    answer (perform (.remove i) c) = m.verdict (.remove i) ∧
      Represents (after (perform (.remove i) c)) (m.step (.remove i)) := by
  rcases h.at_index i with ⟨he, hs⟩ | ⟨e, s, he, hs, -⟩
  · simp only [Container.perform, silently, remove_eq, he, Ledger.verdict, Ledger.current, hs,
      Ledger.step]
    rw [List.eraseIdx_of_length_le (List.getElem?_eq_none_iff.1 hs)]
    exact ⟨rfl, h⟩
  · simp only [Container.perform, silently, remove_eq, he, Ledger.verdict, Ledger.current, hs,
      Ledger.step]
    refine ⟨rfl, h.memory, h.signature, h.version, h.limit, ?_, forall₂_eraseIdx h.entries i,
      fun hmodified => by cases hmodified⟩
    exact Nat.le_trans (List.length_eraseIdx_le ..) h.size

theorem editWith (h : Represents c m) (i : Nat) (d : Edit) :
    answer (editWith i d c) = m.verdict (.edit i d) ∧
      Represents (after (editWith i d c)) (m.step (.edit i d)) := by
  rw [editWith_eq]
  rcases h.at_index i with ⟨he, hs⟩ | ⟨e, s, he, hs, hshow⟩
  · simp only [he, Ledger.verdict, hs, Ledger.step, update_of_none hs]
    exact ⟨rfl, h⟩
  · have hcursor := hshow.cursor_isSome
    simp only [he, Ledger.verdict, hs, Ledger.step, hcursor]
    cases hpayload : e.payload with
    | none =>
      have hsame : s.edited d = s := by
        rw [Item.edited, (hshow.stored_current hpayload).1]
      have hupdate : m.update i (fun s => s.edited d) = m := by
        obtain ⟨hi, rfl⟩ := List.getElem?_eq_some_iff.1 hs
        simp only [Ledger.update, hs, hsame, List.set_getElem_self]
      rw [hupdate]
      exact ⟨rfl, h⟩
    | some q =>
      simp only
      exact ⟨rfl, h.put he hs (hshow.edited hpayload d)⟩

theorem silently_load (h : Represents c m) (i : Nat) :
    answer (silently (Container.load i) c) = m.verdict (.load i) ∧
      Represents (after (silently (Container.load i) c)) (m.step (.load i)) := by
  rcases h.load i with ⟨hs, hload⟩ | ⟨s, p, c', hs, hload, -, h'⟩
  · simp only [silently, hload, Ledger.verdict, Ledger.current, hs, Ledger.step, update_of_none hs]
    exact ⟨rfl, h⟩
  · simp only [silently, hload, Ledger.verdict, Ledger.current, hs, Ledger.step]
    exact ⟨rfl, h'⟩

/-- Every operation comes to what the ledger says, and the ledger keeps up with it. -/
theorem perform (h : Represents c m) (op : Op) :
    answer (perform op c) = m.verdict op ∧
      (InMemory (after (perform op c)).storage →
        Represents (after (perform op c)) (m.step op)) := by
  cases op with
  | save => exact h.save
  | add o => exact ⟨(h.add o).1, fun _ => (h.add o).2⟩
  | remove i => exact ⟨(h.remove i).1, fun _ => (h.remove i).2⟩
  | edit i d => exact ⟨(h.editWith i d).1, fun _ => (h.editWith i d).2⟩
  | write i data =>
    rcases h.at_index i with ⟨he, hs⟩ | ⟨e, s, he, hs, hshow⟩
    · simp only [Container.perform, write_eq, he, Ledger.verdict, Ledger.current, hs, Ledger.step,
        update_of_none hs]
      exact ⟨rfl, fun _ => h⟩
    · simp only [Container.perform, write_eq, he, Ledger.verdict, Ledger.current, hs, Ledger.step]
      exact ⟨rfl, fun _ => h.put he hs (hshow.put fun hdirty => by cases hdirty)⟩
  | unload i =>
    rcases h.at_index i with ⟨he, hs⟩ | ⟨e, s, he, hs, hshow⟩
    · simp only [Container.perform, unload_eq, he, Ledger.verdict, Ledger.current, hs, Ledger.step,
        update_of_none hs]
      exact ⟨rfl, fun _ => h⟩
    · simp only [Container.perform, unload_eq, he, Ledger.verdict, Ledger.current, hs, Ledger.step]
      exact ⟨rfl, fun _ => h.put he hs hshow.reverted⟩
  | load i => exact ⟨(h.silently_load i).1, fun _ => (h.silently_load i).2⟩
  | read i =>
    simp only [Container.perform, silently_read]
    exact ⟨(h.silently_load i).1, fun _ => (h.silently_load i).2⟩

theorem read (h : Represents c m) (i : Nat) : answer (read i c) = m.current i := by
  rw [read_eq]
  rcases h.load i with ⟨hs, hload⟩ | ⟨s, p, c', hs, hload, hbytes, -⟩
  · simp only [hload, Ledger.current, hs]
    rfl
  · simp only [hload, Ledger.current, hs, ← hbytes]
    rfl

/-- Copying sends the current payload to a sink that goes on taking bytes. -/
theorem copy (h : Represents c m) (i : Nat) {sink : Sink} (hsink : sink.Accepting) :
    answer (copy i Sink.write (c, sink)) = (m.current i).map List.length ∧
      (after (copy i Sink.write (c, sink))).2.bytes =
        sink.bytes ++ (m.current i).toOption.getD [] := by
  rw [copy_eq]
  rcases h.at_index i with ⟨he, hs⟩ | ⟨e, s, he, hs, hshow⟩
  · simp only [he, Ledger.current, hs]
    exact ⟨rfl, (List.append_nil _).symm⟩
  · simp only [he, Ledger.current, hs]
    cases hpayload : e.payload with
    | some q =>
      obtain ⟨sink', hwrite, hreceived, -⟩ := Sink.accepts_write.writeAll q.bytes []
        (show sink.Accepting from hsink)
      simp only [hwrite, ← (hshow.payload_eq hpayload).2.1]
      exact ⟨rfl, hreceived.bytes_eq⟩
    | none =>
      obtain ⟨-, -, hstored⟩ := hshow.stored_current hpayload
      obtain ⟨position, sink', hstream, hreceived⟩ :=
        Section.stream_eq h.memory.free.readable hstored hsink i
      simp only [hstream]
      exact ⟨rfl, hreceived.bytes_eq⟩

/-- Copying to any writer moves only the cursor of the storage. -/
theorem copied (h : Represents c m) {σ : Type} (i : Nat) (w : Writer σ) (sink : σ) :
    Represents (after (Container.copy i w (c, sink))).1 m := by
  obtain ⟨position, hcopy⟩ := exists_after_copy i w c sink
  rw [hcopy]
  exact h.moved ⟨position, rfl⟩

/-- What headers in storage open to, when every one of them shows what it is for. -/
theorem opened {maxSections : UInt32} {t : Storage} (ht : InMemory t) {head : MainHeader}
    {headers : List SectionHeader} {items : List Item}
    (hverdict : Opening.verdict maxSections t.content = .ok (head, headers))
    (hall : List.Forall₂ (fun e s => Shows t.content (Entry.ofStored e) s) headers items) :
    Represents (Opening.opened maxSections t head headers) { items, maxSections } := by
  obtain ⟨hmagic, hknown, hcount, hlimits⟩ := Opening.verdict_eq_ok hverdict
  refine ⟨ht, hmagic, hknown, rfl, ?_, List.forall₂_map_left_iff.2 hall,
    fun _ => ⟨fun e he => ?_, fun limit hlimit => ?_⟩⟩
  · rw [← hall.length_eq]
    exact hcount
  · obtain ⟨header, -, rfl⟩ := List.mem_map.1 he
    rfl
  · simp only [Opening.opened, List.length_map] at hlimit
    rw [Opening.headers_opened]
    exact hlimits limit hlimit

/-- A container that is not modified is found again behind what is on storage. -/
theorem reopen_of_clean (h : Represents c m) (hclean : c.isModified = false) {maxSections : UInt32}
    (hcount : m.items.length ≤ maxSections.toNat) :
    ∃ d s, ofStorage maxSections c.storage = .ok d s ∧ Represents d (m.reopen maxSections) := by
  simp only [isModified, Bool.or_eq_false_iff, List.any_eq_false] at hclean
  obtain ⟨hmodified, hdirty⟩ := hclean
  obtain ⟨hpersisted, hverdict⟩ := h.intact hmodified
  have hverdict := hverdict maxSections (by rw [h.entries.length_eq]; exact hcount)
  have hopen := ofStorage_of_readable (h.memory.free _) (h.memory.free _) maxSections
  rw [hverdict] at hopen
  refine ⟨_, _, hopen, ?_⟩
  have ht : InMemory { c.storage with position := c.storage.content.length } :=
    ⟨h.memory.free, h.memory.length⟩
  refine opened ht hverdict ?_
  simp only [Directory.headers, List.forall₂_map_left_iff, List.forall₂_map_right_iff]
  have hmarks : ∀ e ∈ c.directory.entries, e.persisted = true ∧ e.isDirty = false :=
    fun e he => ⟨hpersisted e he, Bool.eq_false_iff.2 (hdirty e he)⟩
  refine ((List.forall₂_and_left _ _).2 ⟨hmarks, h.entries⟩).imp ?_
  rintro e s ⟨⟨hpersisted, hclean⟩, hshow⟩
  exact hshow.reopened hpersisted hclean

/-- Closing saves what is modified, and fails only for a section that is too long. -/
theorem close (h : Represents c m) :
    (∃ d l, close c = .ok () d ∧ d.isModified = false ∧ (InMemory d.storage → Represents d l) ∧
      l.items.map Item.reopened = m.items.map Item.reopened) ∨
      ∃ e d, close c = .error e d ∧ m.tooLong? = some e := by
  rw [close_eq]
  cases hmodified : c.isModified with
  | false => exact .inl ⟨c, m, rfl, hmodified, fun _ => h, rfl⟩
  | true =>
    obtain ⟨hanswer, hrepresents⟩ := h.save
    simp only [if_true]
    cases hsave : Container.save c with
    | error e d =>
      refine .inr ⟨e, d, rfl, ?_⟩
      rw [hsave, Ledger.verdict] at hanswer
      cases hlong : m.tooLong? with
      | none => rw [hlong] at hanswer; cases hanswer
      | some f => rw [hlong] at hanswer; cases hanswer; rfl
    | ok u d =>
      rw [hsave, Ledger.verdict] at hanswer
      rw [hsave] at hrepresents
      have hlong : m.tooLong? = none := by
        cases hlong : m.tooLong? with
        | none => rfl
        | some f => rw [hlong] at hanswer; cases hanswer
      refine .inl ⟨d, m.step .save, rfl, isModified_of_save hsave, hrepresents, ?_⟩
      simp only [Ledger.step, hlong, Option.isSome_none, Bool.false_eq_true, if_false, List.map_map]
      rfl

/-- What closing left in memory is opened again. -/
theorem reopen (h : Represents c m) {maxSections : UInt32}
    (hcount : m.items.length ≤ maxSections.toNat) {d : Container}
    (hclose : Container.close c = .ok () d) (hd : InMemory d.storage) :
    ∃ d', reopen maxSections c = .ok () d' ∧ Represents d' (m.reopen maxSections) := by
  rcases h.close with ⟨d', l, hclose', hclean, hrepresents, hitems⟩ | ⟨e, d', hclose', -⟩
  · rw [hclose] at hclose'
    cases hclose'
    have hlength : l.items.length = m.items.length := by
      rw [← List.length_map, hitems, List.length_map]
    obtain ⟨d', s, hopen, hagain⟩ := (hrepresents hd).reopen_of_clean hclean (hlength ▸ hcount)
    rw [Ledger.reopen, hitems] at hagain
    exact ⟨d', by simp only [Container.reopen, hclose, hopen], hagain⟩
  · rw [hclose] at hclose'
    cases hclose'

/-- A new container has an empty ledger. -/
theorem create {s : Storage} {o : CreateOptions} (hs : InMemory s)
    (hversion : o.version = 1 ∨ o.version = 2) :
    Represents (create s o) { maxSections := o.maxSections } := by
  refine ⟨hs, rfl, ?_, rfl, Nat.zero_le _, .nil, fun hmodified => by cases hmodified⟩
  simpa [MainHeader.isKnownVersion, Container.create, MainHeader.fresh] using hversion

end Represents

/-- What is read behind opening is held where the header says. -/
theorem holds_of_read {c c' : Container} {i : Nat} {raw : Bytes} (hread : read i c = .ok raw c')
    {e : Entry} (he : c.directory.entries[i]? = some e) (hnone : e.payload = none) :
    Section.Holds c.storage.content e.header raw := by
  rw [read_eq, load_eq, he] at hread
  simp only [hnone] at hread
  rcases Section.read_cases i e.header c.storage with
    ⟨raw', s, hsection, -, hholds⟩ | ⟨f, s, hsection, -⟩
  · rw [hsection] at hread
    cases hread
    exact hholds
  · rw [hsection] at hread
    cases hread

theorem shows_ofStored {content : Bytes} {h : SectionHeader} {raw : Bytes}
    (hstored : Section.Stored content h raw) :
    Shows content (Entry.ofStored h) (Item.ofStored h raw) := by
  refine ⟨rfl, rfl, hstored.2.valid_flags, rfl, rfl, fun raw' hraw => ?_, rfl, rfl⟩
  obtain rfl : raw = raw' := Option.some.inj hraw
  exact ⟨hstored, rfl⟩

/-- A container that was opened, and all of whose sections were read, has them in its ledger. -/
theorem represents_opened {maxSections : UInt32} {s s' : Storage} {c : Container}
    {payloads : List Bytes} (hs : InMemory s) (hopen : ofStorage maxSections s = .ok c s')
    (hplace : ∀ h ∈ c.directory.headers, h.pointer.toNat + h.csize.toNat ≤ s.content.length)
    (hcount : payloads.length = c.directory.size)
    (hread : ∀ i raw, payloads[i]? = some raw → ∃ c', read i c = .ok raw c') :
    Represents c
      { items := List.zipWith Item.ofStored c.directory.headers payloads, maxSections } := by
  obtain ⟨position, head, headers, hverdict, rfl⟩ := ofStorage_ok hopen
  rw [Opening.headers_opened] at hplace ⊢
  have hlength : payloads.length = headers.length := by
    rw [hcount, Directory.size, Opening.opened, List.length_map]
  have hsame : headers.length = (List.zipWith Item.ofStored headers payloads).length := by
    rw [List.length_zipWith, hlength, Nat.min_self]
  have ht : InMemory { s with position } := ⟨hs.free, hs.length⟩
  refine .opened ht hverdict (List.forall₂_iff_get.2 ⟨hsame, ?_⟩)
  intro i hi _
  obtain ⟨c', hread⟩ := hread i payloads[i] (List.getElem?_eq_getElem (hlength ▸ hi))
  simp only [List.get_eq_getElem, List.getElem_zipWith]
  refine shows_ofStored ⟨hplace _ (List.getElem_mem hi), ?_⟩
  refine holds_of_read (e := Entry.ofStored headers[i]) hread ?_ rfl
  simp only [Opening.opened, List.getElem?_map, List.getElem?_eq_getElem hi]
  rfl

/-- Closing and opening again, when it succeeds, leads to the sections as the ledger has them. -/
theorem Represents.reopened {c c' : Container} {m : Ledger} {maxSections : UInt32}
    (h : Represents c m) (hcount : m.items.length ≤ maxSections.toNat)
    (hreopen : Container.reopen maxSections c = .ok () c') (hs : InMemory c'.storage) :
    Represents c' (m.reopen maxSections) := by
  simp only [Container.reopen] at hreopen
  cases hclose : Container.close c with
  | error e d =>
    rw [hclose] at hreopen
    cases hreopen
  | ok u d =>
    simp only [hclose] at hreopen
    cases hopen : ofStorage maxSections d.storage with
    | error e s =>
      rw [hopen] at hreopen
      cases hreopen
    | ok d' s =>
      rw [hopen] at hreopen
      cases hreopen
      obtain ⟨position, head, headers, -, hopened⟩ := ofStorage_ok hopen
      have hd : InMemory d.storage := by
        rw [hopened] at hs
        exact ⟨hs.free, hs.length⟩
      obtain ⟨d', hagain, hrepresents⟩ := h.reopen hcount hclose hd
      simp only [Container.reopen, hclose, hopen] at hagain
      cases hagain
      exact hrepresents

/-- A run keeps the agreement with its ledger. -/
theorem Runs.represents {c : Container} {m : Ledger} (h : Runs c m) : Represents c m := by
  induction h with
  | create hs hversion => exact .create hs hversion
  | opened hs hopen hplace hcount hread => exact represents_opened hs hopen hplace hcount hread
  | perform op _ hs ih => exact (ih.perform op).2 hs
  | copy i w sink _ ih => exact ih.copied i w sink
  | reopen _ hcount hreopen hs ih => exact ih.reopened hcount hreopen hs

/-- Over a whole run a container answers as the ledger beside it has it. -/
theorem Runs.describes {c : Container} {m : Ledger} (h : Runs c m) : Describes m c := by
  have hrepresents := h.represents
  refine ⟨hrepresents.read, fun i sink hsink => hrepresents.copy i hsink,
    fun op => (hrepresents.perform op).1, fun maxSections hcount hlong hmemory => ?_⟩
  rcases hrepresents.close with ⟨d, l, hclose, -⟩ | ⟨e, d, -, hlong'⟩
  · rw [hclose] at hmemory
    obtain ⟨d', hreopen, -⟩ := hrepresents.reopen hcount hclose hmemory
    rw [hreopen]
    rfl
  · rw [hlong] at hlong'
    cases hlong'

/-- For one, a section that was added, written and saved. -/
theorem describes_written_section :
    let c := after (perform (.write 0 [7, 8]) (after (perform (.add { ty := 5 }) (create {} {}))))
    let m := (Ledger.step { maxSections := defaultMaxSections } (.add { ty := 5 })).step
      (.write 0 [7, 8])
    Runs (after (perform .save c)) (m.step .save) ∧
      Describes (m.step .save) (after (perform .save c)) := by
  intro c m
  have hempty : InMemory {} := ⟨fun _ => rfl, by decide⟩
  have hrun : Runs c m := .perform _ (.perform _ (.create hempty (.inr rfl)) hempty) hempty
  have hlong :
      [Item.piece { ty := 5, flags := 0, threshold := none, current := [7, 8] }].zipIdx.findSome?
        (fun p => tooLong? p.2 p.1) = none := rfl
  have hrepresents := hrun.represents
  have hpieces : List.Forall₂ (Entry.SavedAs c.storage.content) c.directory.entries
      [Item.piece { ty := 5, flags := 0, threshold := none, current := [7, 8] }] :=
    .cons ⟨rfl, rfl, rfl⟩ .nil
  obtain ⟨d, hrefreshed, -, hsave⟩ := save_of_loadable hrepresents.loadable rfl rfl
    hrepresents.valid_requestedFlags hpieces
  simp only [hlong] at hsave
  have hsaved : InMemory (after (perform .save c)).storage := by
    simp only [perform, hsave.2]
    refine ⟨fun op => (congrFun hrefreshed.refuses op).trans rfl, ?_⟩
    have hlength := @length_bytes_imageOf c.header.ty c.header.version c.header.typeExt
      [Item.piece { ty := 5, flags := 0, threshold := none, current := [7, 8] }]
    simp only [after, commit, hlength]
    decide
  have hruns : Runs (after (perform .save c)) (m.step .save) := .perform .save hrun hsaved
  exact ⟨hruns, hruns.describes⟩

end Container

end SectionArchive
