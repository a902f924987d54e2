import Mathlib
import SectionArchive.Proofs.FlippedHeaders
import SectionArchive.Proofs.Saving
import SectionArchive.Proofs.Streaming
/-!
One flipped bit in a saved container. In the main header or the directory it is found when the
container is opened. In a payload it disturbs no other section, since the places of an image do not
overlap, and a section that is stored under a checksum is refused for it, read or copied.
-/

namespace SectionArchive

open Section (Piece)

namespace Section

variable {content content' : Bytes} {h : SectionHeader} {s s' : Storage}

/-! ### Reading depends on the place alone -/

theorem answer_read_congr (hs : s.FaultFree) (hs' : s'.FaultFree)
    (hplace : place s'.content h = place s.content h) (index : Nat) :
    answer (read index h s') = answer (read index h s) := by
  rw [answer_read hs, answer_read hs', contained, contained, hplace]

theorem stream_congr {σ : Type} (hs : s.FaultFree) (hs' : s'.FaultFree)
    (hinside : h.pointer.toNat + h.csize.toNat ≤ s.content.length)
    (hinside' : h.pointer.toNat + h.csize.toNat ≤ s'.content.length)
    (hplace : place s'.content h = place s.content h) (index : Nat) (w : Writer σ) (sink : σ) :
    answer (stream index h w (s', sink)) = answer (stream index h w (s, sink)) ∧
      (Container.after (stream index h w (s', sink))).2 =
        (Container.after (stream index h w (s, sink))).2 := by
  obtain ⟨position, hlocate⟩ := locate_eq hs.readable hinside
  obtain ⟨position', hlocate'⟩ := locate_eq hs'.readable hinside'
  rw [hplace] at hlocate'
  cases hsel : h.selection index with
  | error e =>
    simp only [stream, hsel]
    exact ⟨rfl, rfl⟩
  | ok r =>
    simp only [stream, hsel, hlocate, hlocate']
    cases forward index h r.1 r.2 (.buffered (place s.content h)) w sink <;> exact ⟨rfl, rfl⟩

/-! ### A replaced byte -/

theorem place_set_of_outside {j : Nat} {x : UInt8}
    (hj : j < h.pointer.toNat ∨ h.pointer.toNat + h.csize.toNat ≤ j) :
    place (content.set j x) h = place content h := SectionHeader.drop_take_set hj

theorem place_set_of_inside {j : Nat} {x : UInt8} (hj : h.pointer.toNat ≤ j) :
    place (content.set j x) h = (place content h).set (j - h.pointer.toNat) x := by
  rw [place, place, List.drop_set, if_neg (Nat.not_lt.2 hj), List.take_set]

/-- Bytes that are stored are delivered as they are. -/
theorem output_unpack_whole (bs : Bytes) : (Delivery.unpack none (.whole bs)).output = bs :=
  Delivery.output_ofBytes _ _

theorem complete_stored_iff {bs : Bytes} {size : Nat} :
    Complete (.unpack none (.whole bs)) size ↔ bs.length = size := by
  rw [Complete, output_unpack_whole]
  exact and_iff_right rfl

theorem decode_stored {index : Nat} {kind : Checksum.Kind} {packed : Bytes}
    (hsel : h.selection index = .ok (none, kind)) (hsize : packed.length = h.size.toNat) :
    decode index h packed =
      match check index kind h.checksum (Checksum.checksum kind packed) with
      | .error e => .error e
      | .ok () => .ok packed := by
  have hdecode := decode_of_complete hsel (complete_stored_iff.2 hsize)
  rwa [output_unpack_whole] at hdecode

/-- What is stored under a checksum and handed out has the size and the checksum of the header. -/
theorem of_decode_stored {index : Nat} {kind : Checksum.Kind} {packed raw : Bytes}
    (hsel : h.selection index = .ok (none, kind)) (hkind : kind ≠ .none)
    (hdecode : decode index h packed = .ok raw) :
    packed.length = h.size.toNat ∧ h.checksum = Checksum.checksum kind packed := by
  have hsize : packed.length = h.size.toNat := by
    by_contra hne
    obtain ⟨e, herror, -⟩ := decode_of_not_complete hsel (mt complete_stored_iff.1 hne)
    rw [hdecode] at herror
    cases herror
  refine ⟨hsize, ?_⟩
  by_contra hne
  rw [decode_stored hsel hsize, check_of_mismatch hkind hne] at hdecode
  cases hdecode

/-- A section that is stored under a checksum is not handed out with another byte in it. -/
theorem contained_set {raw : Bytes} (hstored : Stored content h raw) {index : Nat}
    {kind : Checksum.Kind} (hsel : h.selection index = .ok (none, kind)) (hkind : kind ≠ .none)
    {j : Nat} (hj : h.pointer.toNat ≤ j) (hj' : j < h.pointer.toNat + h.csize.toNat)
    {x : UInt8} (hlength : j < content.length) (hx : content[j] ≠ x) :
    ∃ actual, h.checksum ≠ actual ∧
      contained index (content.set j x) h =
        .error (.checksum (.payload index) h.checksum actual) := by
  obtain ⟨hpacked, hdecode⟩ := hstored.2.decode_place index
  obtain ⟨hsize, hsum⟩ := of_decode_stored hsel hkind hdecode
  have hin : j - h.pointer.toNat < (place content h).length := by omega
  have hat : (place content h)[j - h.pointer.toNat] ≠ x := by
    have hsame : (place content h)[j - h.pointer.toNat] = content[j] := by
      simp only [place, List.getElem_take, List.getElem_drop, Nat.add_sub_cancel' hj]
    rw [hsame]
    exact hx
  have hchanged : h.checksum ≠
      Checksum.checksum kind ((place content h).set (j - h.pointer.toNat) x) := by
    rw [hsum]
    exact (Checksum.checksum_set_ne hkind hin hat).symm
  refine ⟨_, hchanged, ?_⟩
  rw [contained, place_set_of_inside hj, List.length_set, if_neg (not_not.2 hpacked),
    decode_stored hsel (by rw [List.length_set, hsize]), check_of_mismatch hkind hchanged]

end Section

namespace Container

variable {c d : Container} {i j : Nat}

/-- The section at `i` reads the same from both containers, and is copied the same into any
writer. -/
def ReadsAlike (c d : Container) (i : Nat) : Prop :=
  answer (read i c) = answer (read i d) ∧
    ∀ {σ : Type} (w : Writer σ) (sink : σ),
      answer (copy i w (c, sink)) = answer (copy i w (d, sink)) ∧
        (after (copy i w (c, sink))).2 = (after (copy i w (d, sink))).2

/-- The section at `i` is refused for its checksum, whether it is read or copied into a writer that
goes on taking bytes. -/
def RefusedForChecksum (c : Container) (i : Nat) : Prop :=
  ∃ expected actual, expected ≠ actual ∧
    answer (read i c) = .error (.checksum (.payload i) expected actual) ∧
    ∀ {σ : Type} (w : Writer σ) (able : σ → Prop) (received : σ → Bytes),
      w.Willing able received → ∀ sink, able sink →
        answer (copy i w (c, sink)) = .error (.checksum (.payload i) expected actual)

/-- Without a section at `i` there is nothing that could read differently. -/
theorem readsAlike_of_none (hc : c.directory.entries[i]? = none)
    (hd : d.directory.entries[i]? = none) : ReadsAlike c d i := by
  constructor
  · rw [read_eq, read_eq, load_eq, load_eq, hc, hd]
    rfl
  · intro σ w sink
    rw [copy_eq, copy_eq, hc, hd]
    exact ⟨rfl, rfl⟩

/-- A section that is only on storage reads alike where the bytes in its place are the same. -/
theorem readsAlike_of_place {e : Entry} (hc : c.storage.FaultFree) (hd : d.storage.FaultFree)
    (hi : c.directory.entries[i]? = some e) (hi' : d.directory.entries[i]? = some e)
    (hnone : e.payload = none)
    (hinside : e.header.pointer.toNat + e.header.csize.toNat ≤ c.storage.content.length)
    (hinside' : e.header.pointer.toNat + e.header.csize.toNat ≤ d.storage.content.length)
    (hplace : Section.place c.storage.content e.header =
      Section.place d.storage.content e.header) : ReadsAlike c d i := by
  constructor
  · rw [answer_read_of_unloaded hi hnone, answer_read_of_unloaded hi' hnone]
    exact Section.answer_read_congr hd hc hplace i
  · intro σ w sink
    obtain ⟨hanswer, hafter⟩ := copy_of_unloaded hi hnone w sink
    obtain ⟨hanswer', hafter'⟩ := copy_of_unloaded hi' hnone w sink
    rw [hanswer, hafter, hanswer', hafter']
    exact Section.stream_congr hd hc hinside' hinside hplace i w sink

theorem refused_of_contained {e : Entry} (hc : c.storage.FaultFree)
    (hi : c.directory.entries[i]? = some e) (hnone : e.payload = none)
    (hinside : e.header.pointer.toNat + e.header.csize.toNat ≤ c.storage.content.length)
    {expected actual : UInt32} (hne : expected ≠ actual)
    (hcontained : Section.contained i c.storage.content e.header =
      .error (.checksum (.payload i) expected actual)) : RefusedForChecksum c i := by
  have hanswer : answer (read i c) = .error (.checksum (.payload i) expected actual) := by
    rw [answer_read_of_unloaded hi hnone, Section.answer_read hc, hcontained]
  refine ⟨expected, actual, hne, hanswer, ?_⟩
  intro σ w able received hw sink hsink
  obtain ⟨e', hcopy, -, hsame⟩ := (copy_agrees hw hc hi hnone hinside hsink).failure _ hanswer
  rw [hcopy, hsame rfl]

/-- Opened with the same headers over two contents, a section reads alike where its place is inside
both and has the same bytes. -/
theorem readsAlike_opened {maxSections : UInt32} {header : MainHeader}
    {headers : List SectionHeader} {content content' : Bytes} {position position' : Nat}
    (hsame : ∀ h, headers[i]? = some h →
      h.pointer.toNat + h.csize.toNat ≤ content'.length ∧
      h.pointer.toNat + h.csize.toNat ≤ content.length ∧
      Section.place content' h = Section.place content h) :
    ReadsAlike
      (Opening.opened maxSections { content := content', position := position' } header headers)
      (Opening.opened maxSections { content, position } header headers) i := by
  cases hi : headers[i]? with
  | none =>
    apply readsAlike_of_none
    · rw [Opening.entries_opened, hi, Option.map_none]
    · rw [Opening.entries_opened, hi, Option.map_none]
  | some h =>
    obtain ⟨hinside', hinside, hplace⟩ := hsame h hi
    apply @readsAlike_of_place _ _ i (.ofStored h) (fun _ => rfl) (fun _ => rfl)
    · rw [Opening.entries_opened, hi, Option.map_some]
    · rw [Opening.entries_opened, hi, Option.map_some]
    · rfl
    · exact hinside'
    · exact hinside
    · exact hplace

/-! ### Opening -/

/-- A flipped bit under the checksum of the main header is found on opening. -/
theorem ofStorage_flipBit_of_protected {bs : Bytes} {o : Container} {s : Storage}
    {maxSections : UInt32} {position : Nat}
    (hopen : ofStorage maxSections { content := bs, position } = .ok o s)
    (hj : Opening.Protected o.directory.size j) (bit : Fin 8) :
    ∃ e s', ofStorage maxSections { content := bs.flipBit j bit, position } = .error e s' ∧
      Opening.HeaderComplaint e := by
  obtain ⟨position', header, headers, hverdict, rfl⟩ := ofStorage_ok hopen
  obtain ⟨haccepted, -, rfl⟩ := Opening.verdict_eq_ok_iff.1 hverdict
  rw [Directory.size, Opening.opened, List.length_map, Opening.length_directory] at hj
  obtain ⟨e, hrefused, hcomplaint⟩ := Opening.verdict_flipBit haccepted hj bit
  have hopen' := @ofStorage_of_readable { content := bs.flipBit j bit, position } rfl rfl maxSections
  rw [hrefused] at hopen'
  exact ⟨e, _, hopen', hcomplaint⟩

/-- A flipped bit behind the directory is not looked at on opening. -/
theorem ofStorage_flipBit_of_behind {bs : Bytes} {maxSections : UInt32} {header : MainHeader}
    {headers : List SectionHeader}
    (hverdict : Opening.verdict maxSections bs = .ok (header, headers))
    (hj : 40 + 24 * headers.length ≤ j) (bit : Fin 8) (position : Nat) :
    ∃ s', ofStorage maxSections { content := bs.flipBit j bit, position } =
      .ok (Opening.opened maxSections
        { content := bs.flipBit j bit, position := (bs.flipBit j bit).length } header headers) s' := by
  have hsame : (bs.flipBit j bit).take (40 + 24 * headers.length) =
      bs.take (40 + 24 * headers.length) := by
    rw [Bytes.flipBit, List.take_modify, List.modify_eq_self]
    rw [List.length_take]
    omega
  have hopen := @ofStorage_of_readable { content := bs.flipBit j bit, position } rfl rfl maxSections
  rw [Opening.verdict_congr hverdict hsame] at hopen
  exact ⟨_, hopen⟩

/-! ### The places of an image -/

theorem packedLength_take_add_le {headers : List SectionHeader} {h : SectionHeader} {k : Nat}
    (hi : headers[i]? = some h) (hk : i < k) :
    packedLength (headers.take i) + h.csize.toNat ≤ packedLength (headers.take k) := by
  induction headers generalizing i k with
  | nil => cases hi
  | cons first rest ih =>
    cases k with
    | zero => omega
    | succ k =>
      cases i with
      | zero =>
        cases hi
        rw [List.take_succ_cons, packedLength, List.take_zero, packedLength]
        omega
      | succ i =>
        have hmore := ih hi (Nat.lt_of_succ_lt_succ hk)
        rw [List.take_succ_cons, List.take_succ_cons, packedLength, packedLength]
        omega

/-- The places of a canonical layout lie behind the directory and do not overlap. -/
theorem Canonical.apart {content : Bytes} {header : MainHeader} {headers : List SectionHeader}
    {pieces : List Piece} (hc : Canonical content header headers pieces) {h : SectionHeader}
    (hi : headers[i]? = some h) (hj : h.pointer.toNat ≤ j)
    (hj' : j < h.pointer.toNat + h.csize.toNat) :
    40 + 24 * headers.length ≤ j ∧
      ∀ k t, k ≠ i → headers[k]? = some t →
        j < t.pointer.toNat ∨ t.pointer.toNat + t.csize.toNat ≤ j := by
  have hpointer : ∀ k t, headers[k]? = some t →
      t.pointer.toNat = 40 + 24 * headers.length + packedLength (headers.take k) := by
    intro k t hk
    obtain ⟨hlt, -⟩ := List.getElem?_eq_some_iff.1 hk
    have hpiece : k < pieces.length := by
      rw [← hc.count.1]
      exact hlt
    rw [hc.count.1]
    exact (hc.sections k t _ hk (List.getElem?_eq_getElem hpiece)).1
  have hhere := hpointer i h hi
  refine ⟨by omega, fun k t hne hk => ?_⟩
  have hthere := hpointer k t hk
  rcases Nat.lt_or_gt_of_ne hne with hlt | hgt
  · have hbefore := packedLength_take_add_le hk hlt
    omega
  · have hbehind := packedLength_take_add_le hi hgt
    omega

/-- What a successful save leaves is the image of as many pieces as the directory can count. -/
theorem exists_imageOf_of_save {c c' : Container} (hc : Reachable c) (hsave : save c = .ok () c') :
    ∃ pieces, (∀ p ∈ pieces, p.Fits) ∧ pieces.length < UInt32.size ∧
      c'.storage.content = (imageOf c.header.ty c.header.version c.header.typeExt pieces).bytes := by
  have hbounded := hc.bounded
  obtain ⟨-, d, sections, s, hrefreshed, -, hencode, hstore, rfl⟩ := exists_loaded_of_save hsave
  obtain ⟨pieces, hpacks, hpieces⟩ := packs_of_encodeFrom hencode
  refine ⟨pieces, fits_of_isPiece hpieces, ?_, ?_⟩
  · rw [← hpacks.length_eq, ← hrefreshed.entries.length_eq]
    exact Nat.lt_of_le_of_lt hbounded.size c.directory.maxSections.toNat_lt
  · rw [← ofSections_eq_imageOf hbounded.signature hpieces]
    exact congrArg Storage.content (Storage.store_ok hstore)

/-- A flipped bit in the payload of one section of an image. -/
theorem ofStorage_flipBit_of_payload {ty : UInt8} {version : UInt32} {typeExt : FixedBytes 16}
    {pieces : List Piece} (hfits : ∀ p ∈ pieces, p.Fits) (hcount : pieces.length < UInt32.size)
    (hlength : (imageOf ty version typeExt pieces).bytes.length < UInt64.size) {o : Container}
    {s : Storage} {maxSections : UInt32} {position : Nat}
    (hopen : ofStorage maxSections
      { content := (imageOf ty version typeExt pieces).bytes, position } = .ok o s)
    {h : SectionHeader} (hi : o.directory.headers[i]? = some h) (hj : h.pointer.toNat ≤ j)
    (hj' : j < h.pointer.toNat + h.csize.toNat) (bit : Fin 8) :
    ∃ o' s', ofStorage maxSections
        { content := (imageOf ty version typeExt pieces).bytes.flipBit j bit, position } =
          .ok o' s' ∧
      (∀ k, k ≠ i → ReadsAlike o' o k) ∧
      ∀ kind, h.selection i = .ok (none, kind) → kind ≠ .none → RefusedForChecksum o' i := by
  obtain ⟨position', header, headers, hverdict, rfl⟩ := ofStorage_ok hopen
  obtain ⟨-, -, hheaders⟩ := Opening.verdict_eq_ok_iff.1 hverdict
  rw [directory_imageOf hcount] at hheaders
  subst hheaders
  rw [Opening.headers_opened] at hi
  obtain ⟨hbehind, hapart⟩ := (canonical_imageOf hfits hcount hlength).apart hi hj hj'
  obtain ⟨s', hopen'⟩ := ofStorage_flipBit_of_behind hverdict hbehind bit position
  have hstored : ∀ (k : Nat) (t : SectionHeader),
      (imageOf ty version typeExt pieces).headers[k]? = some t →
      ∃ raw, Section.Stored (imageOf ty version typeExt pieces).bytes t raw := by
    intro k t hk
    obtain ⟨p, -, hplaces⟩ :=
      exists_getElem?_of_forall₂ (places_imageOf hfits hlength).flip hk
    exact ⟨p.raw, Places.stored hplaces⟩
  obtain ⟨raw, hhere⟩ := hstored i h hi
  have hlt : j < (imageOf ty version typeExt pieces).bytes.length := by
    have hinside := hhere.1
    omega
  obtain ⟨x, hx, hset⟩ := Bytes.flipBit_eq_set hlt bit
  have hlengths := Bytes.length_flipBit (imageOf ty version typeExt pieces).bytes j bit
  refine ⟨_, s', hopen', ?_, ?_⟩
  · -- Places do not overlap, so every other section finds its bytes as they were.
    refine fun k hk => readsAlike_opened fun t ht => ?_
    obtain ⟨raw', hinside, -⟩ := hstored k t ht
    refine ⟨hinside.trans_eq hlengths.symm, hinside, ?_⟩
    rw [hset]
    exact Section.place_set_of_outside (hapart k t hk ht)
  · intro kind hsel hkind
    obtain ⟨actual, hne, hcontained⟩ := Section.contained_set hhere hsel hkind hj hj' hlt hx
    rw [← hset] at hcontained
    apply @refused_of_contained _ i (.ofStored h) (fun _ => rfl)
    · rw [Opening.entries_opened, hi, Option.map_some]
    · rfl
    · exact hhere.1.trans_eq hlengths.symm
    · exact hne
    · exact hcontained

/-- Whichever one bit is flipped in what a successful save left, the length of the storage being a
64-bit number: in the main header or the directory, but for the count of sections and the reserved
pairs, it is found on opening. In the payload of a section it does not keep the container from being
opened and disturbs no other section; and that section is refused if it is stored under a
checksum. -/
theorem bit_flips_are_caught {c c' o : Container} {s : Storage} {maxSections : UInt32}
    {position : Nat} (hc : Reachable c) (hsave : save c = .ok () c')
    (hlength : c'.storage.content.length < UInt64.size)
    (hopen : ofStorage maxSections { content := c'.storage.content, position } = .ok o s)
    (j : Nat) (bit : Fin 8) :
    (Opening.Protected o.directory.size j →
      ∃ e s', ofStorage maxSections { content := c'.storage.content.flipBit j bit, position } =
          .error e s' ∧ Opening.HeaderComplaint e) ∧
    ∀ i h, o.directory.headers[i]? = some h → h.pointer.toNat ≤ j →
      j < h.pointer.toNat + h.csize.toNat →
      ∃ o' s', ofStorage maxSections { content := c'.storage.content.flipBit j bit, position } =
          .ok o' s' ∧
        (∀ k, k ≠ i → ReadsAlike o' o k) ∧
        ∀ kind, h.selection i = .ok (none, kind) → kind ≠ .none → RefusedForChecksum o' i := by
  refine ⟨fun hj => ofStorage_flipBit_of_protected hopen hj bit, ?_⟩
  obtain ⟨pieces, hfits, hcount, hcontent⟩ := exists_imageOf_of_save hc hsave
  rw [hcontent] at hlength hopen ⊢
  intro i h hi hj hj'
  exact ofStorage_flipBit_of_payload hfits hcount hlength hopen hi hj hj' bit

/-- For one, a flipped bit of the version and one of the payload, over a section of two bytes. -/
theorem bit_flips_are_caught_in_two_bytes :
    let c := after (write 0 [7, 8] (after (add { ty := 5, checksum := .weak }
      (create { content := [1, 2, 3] } { version := 1 }))))
    ∃ c' o s, Reachable c ∧ save c = .ok () c' ∧ c'.storage.content.length < UInt64.size ∧
      ofStorage 1 { content := c'.storage.content } = .ok o s ∧
      (∃ e s', ofStorage 1 { content := c'.storage.content.flipBit 20 1 } = .error e s' ∧
        Opening.HeaderComplaint e) ∧
      ∃ o' s', ofStorage 1 { content := c'.storage.content.flipBit 64 3 } = .ok o' s' ∧
        RefusedForChecksum o' 0 := by
  intro c
  have hreachable : Reachable c := .write (.add (.create _ _) _) _ _
  have hloaded : c.AllLoaded := by
    intro e he
    obtain rfl := List.mem_singleton.1 he
    exact ⟨_, rfl⟩
  have hflags : ∀ e ∈ c.directory.entries, Flags.Valid e.requestedFlags := by
    intro e he
    obtain rfl := List.mem_singleton.1 he
    exact Flags.valid_select none .weak
  have hpieces : List.Forall₂ (Entry.SavedAs c.storage.content) c.directory.entries
      [⟨5, 0x8, [7, 8]⟩] := .cons ⟨rfl, rfl, rfl⟩ .nil
  obtain ⟨d, -, -, hfits, hsave⟩ := save_of_loadable (hloaded.loadable fun _ _ => rfl) rfl rfl
    hflags hpieces
  have hlength := @length_bytes_imageOf c.header.ty c.header.version c.header.typeExt
    [⟨5, 0x8, [7, 8]⟩]
  have hsmall : (imageOf c.header.ty c.header.version c.header.typeExt
      [⟨5, 0x8, [7, 8]⟩]).bytes.length < UInt64.size := by
    rw [hlength]
    decide
  have hopen := @ofStorage_of_readable { content := (imageOf c.header.ty c.header.version
    c.header.typeExt [⟨5, 0x8, [7, 8]⟩]).bytes } rfl rfl 1
  rw [verdict_imageOf rfl hfits hsmall (show 1 ≤ (1 : UInt32).toNat by decide)] at hopen
  have hcaught := bit_flips_are_caught hreachable hsave hsmall hopen
  refine ⟨_, _, _, hreachable, hsave, hsmall, hopen, (hcaught 20 1).1 ?_, ?_⟩
  · exact .inr (.inl (by decide))
  · obtain ⟨o', s', hopen', -, hrefused⟩ := (hcaught 64 3).2 0 _ rfl (by decide) (by decide)
    exact ⟨o', s', hopen', hrefused .weak rfl (by decide)⟩

end Container

end SectionArchive
