import Mathlib
import SectionArchive.Proofs.ChunkRoundTrip
import SectionArchive.Xz.Encoding
import SectionArchive.Xz.Stream
/-!
An xz stream that was written is read back. Each part of the frame is taken off the front of
whatever follows it; sums are compared with sums of the same bytes, so nothing is known of them but
their width.
-/

namespace SectionArchive.Xz

/-- The step takes just these bytes off the front of any input, gives `a`, and brings the output
from `out` to `out'`. -/
def Takes {α : Type} (m : Read α) (bs : Bytes) (a : α) (out out' : Array UInt8) : Prop :=
  ∀ rest taken, m { input := bs ++ rest, taken, out } =
    .ok a { input := rest, taken := taken + bs.length, out := out' }

variable {α β : Type} {out out' out'' : Array UInt8}

theorem takes_pure (a : α) (out : Array UInt8) : Takes (pure a) [] a out out := fun _ _ => rfl

theorem Takes.bind {m : Read α} {f : α → Read β} {bs cs : Bytes} {a : α} {b : β}
    (hm : Takes m bs a out out') (hf : Takes (f a) cs b out' out'') :
    Takes (m >>= f) (bs ++ cs) b out out'' := by
  intro rest taken
  have hfirst := hm (cs ++ rest) taken
  have hsecond := hf rest (taken + bs.length)
  rw [← List.append_assoc] at hfirst
  simp only [Bind.bind, EStateM.bind, hfirst, hsecond, List.length_append, Nat.add_assoc]

/-- After a step that takes nothing. -/
theorem Takes.bind_of_nil {α β : Type} {m : Read α} {f : α → Read β} {bs : Bytes} {a : α} {b : β}
    (hm : Takes m [] a out out') (hf : Takes (f a) bs b out' out'') :
    Takes (m >>= f) bs b out out'' := hm.bind hf

/-- Before a step that takes nothing. -/
theorem Takes.bind_nil {α β : Type} {m : Read α} {f : α → Read β} {bs : Bytes} {a : α} {b : β}
    (hm : Takes m bs a out out') (hf : Takes (f a) [] b out' out'') :
    Takes (m >>= f) bs b out out'' := by
  rw [← List.append_nil bs]
  exact hm.bind hf

/-- A step that looks at the output so far. -/
theorem takes_get {f : Reader → Read α} {bs : Bytes} {a : α}
    (h : ∀ s : Reader, s.out = out → bs.length ≤ s.input.length → Takes (f s) bs a out out') :
    Takes (get >>= f) bs a out out' := by
  intro rest taken
  exact h { input := bs ++ rest, taken, out } rfl (by simp) rest taken

theorem takes_take (bs : Bytes) (out : Array UInt8) :
    Takes (Reader.take bs.length) bs bs out out := by
  intro rest taken
  simp only [Reader.take, Bytes.split?_append]

theorem require_of_eq {condition : Bool} (h : condition = true) (stop : Stop) (s : Reader) :
    Reader.require condition stop s = .ok () s := by
  rw [Reader.require, if_pos h]
  rfl

theorem takes_require {condition : Bool} (h : condition = true) (stop : Stop) (out : Array UInt8) :
    Takes (Reader.require condition stop) [] () out out :=
  fun _ _ => require_of_eq h stop _

theorem takes_takeByte (b : UInt8) (out : Array UInt8) : Takes Reader.takeByte [b] b out out :=
  (takes_take [b] out).bind_nil (takes_pure b out)

/-! ### Numbers and padding -/

theorem takes_takeNumber_last {n : Nat} (hlast : n < 128) (most : Nat) {place : Nat}
    (hzero : n = 0 → place = 0) (out : Array UInt8) :
    Takes (Reader.takeNumber (most + 1) place) [UInt8.ofNat n] (n <<< (7 * place)) out out := by
  have hbyte : (UInt8.ofNat n).toNat = n := by
    rw [UInt8.toNat_ofNat']
    omega
  have hallowed : decide (UInt8.ofNat n ≠ 0 ∨ place = 0) = true := by
    rw [decide_eq_true_eq, ne_eq, ← UInt8.toNat_inj, hbyte]
    by_cases hn : n = 0
    · exact .inr (hzero hn)
    · exact .inl hn
  refine (takes_takeByte _ out).bind_nil ?_
  simp only [hbyte, hlast, if_true]
  exact (takes_require hallowed .corrupt out).bind (takes_pure _ out)

theorem takes_takeNumber {most n : Nat} (place : Nat) (h : n < 128 ^ (most + 1))
    (hzero : n = 0 → place = 0) (out : Array UInt8) :
    Takes (Reader.takeNumber (most + 1) place) (encodeNumber n) (n <<< (7 * place)) out out := by
  induction most generalizing place n with
  | zero =>
    rw [encodeNumber, if_pos (by simpa using h)]
    exact takes_takeNumber_last (by simpa using h) 0 hzero out
  | succ most ih =>
    rw [encodeNumber]
    split
    · next hlast => exact takes_takeNumber_last hlast _ hzero out
    · next hmore =>
      have hbyte : (UInt8.ofNat (n % 128 + 128)).toNat = n % 128 + 128 := by
        rw [UInt8.toNat_ofNat']
        omega
      have hvalue : (n % 128 + 128 - 128) <<< (7 * place) + (n / 128) <<< (7 * (place + 1)) =
          n <<< (7 * place) := by
        rw [Nat.add_sub_cancel, Nat.shiftLeft_eq, Nat.shiftLeft_eq, Nat.shiftLeft_eq, Nat.mul_succ,
          Nat.pow_add, ← Nat.mul_assoc, Nat.mul_right_comm, ← Nat.add_mul,
          show 2 ^ 7 = 128 from rfl, Nat.mul_comm (n / 128), Nat.mod_add_div]
      have hhigh : n / 128 < 128 ^ (most + 1) := by
        rw [Nat.div_lt_iff_lt_mul (by decide), ← Nat.pow_succ]
        exact h
      have hrest := ih (place + 1) hhigh (by omega)
      refine (takes_takeByte _ out).bind ?_
      simp only [hbyte, show ¬ n % 128 + 128 < 128 by omega, if_false]
      rw [← List.append_nil (encodeNumber (n / 128)), ← hvalue]
      exact hrest.bind (takes_pure _ out)

theorem takes_takeNumber_nine {n : Nat} (h : n < 128 ^ 9) (out : Array UInt8) :
    Takes (Reader.takeNumber 9 0) (encodeNumber n) n out out := by
  simpa only [Nat.mul_zero, Nat.shiftLeft_zero] using takes_takeNumber 0 h (fun _ => rfl) out

theorem length_encodeNumber_le {most n : Nat} (h : n < 128 ^ most) (hpos : 0 < most) :
    (encodeNumber n).length ≤ most := by
  induction most generalizing n with
  | zero => omega
  | succ most ih =>
    rw [encodeNumber]
    split
    · simp
    · next hmore =>
      have hhigh : n / 128 < 128 ^ most := by
        rw [Nat.div_lt_iff_lt_mul (by decide), ← Nat.pow_succ]
        exact h
      have hmost : 0 < most := by
        by_contra hzero
        obtain rfl : most = 0 := by omega
        simp only [Nat.pow_zero] at hhigh
        omega
      have hrest := ih hhigh hmost
      simp only [List.length_cons]
      omega

theorem takes_takePadding (length : Nat) (out : Array UInt8) :
    Takes (Reader.takePadding length) (padding length) () out out := by
  have hcases : (4 - length % 4) % 4 = 0 ∨ (4 - length % 4) % 4 = 1 ∨ (4 - length % 4) % 4 = 2 ∨
      (4 - length % 4) % 4 = 3 := by omega
  rcases hcases with h | h | h | h
  all_goals
    simp only [padding, h, Reader.takePadding, List.replicate]
    intro rest taken
    rfl

theorem takes_takeExactly (bs : Bytes) (out : Array UInt8) :
    Takes (takeExactly bs) bs () out out := by
  induction bs with
  | nil => exact takes_pure () out
  | cons b bs ih =>
    have hfirst : Takes _ ([b] ++ bs) () out out := (takes_takeByte b out).bind
      (f := fun x => do Reader.require (x == b) .corrupt; takeExactly bs)
      ((takes_require (beq_self_eq_true b) .corrupt out).bind ih)
    exact hfirst

/-! ### The index -/

def Record.Listable (r : Record) : Prop :=
  smallestBlock ≤ r.unpadded ∧ r.unpadded < 128 ^ 9 ∧ r.size < 128 ^ 9

def recordNumbers (records : List Record) : Bytes :=
  records.flatMap fun r => encodeNumber r.unpadded ++ encodeNumber r.size

theorem within_of_foldl_add {records : List Record} {sofar limit : Totals}
    (h : (records.foldl Totals.add sofar).within limit = true) : sofar.within limit = true := by
  induction records generalizing sofar with
  | nil => exact h
  | cons r rest ih =>
    have hadd := ih h
    simp only [Totals.within, Bool.and_eq_true, decide_eq_true_eq] at hadd ⊢
    simp only [Totals.add] at hadd
    omega

theorem takes_takeRecords {records : List Record} (h : ∀ r ∈ records, r.Listable)
    {sofar limit : Totals} (hlimit : (records.foldl Totals.add sofar).within limit = true)
    (out : Array UInt8) :
    Takes (takeRecords limit records.length sofar) (recordNumbers records) records out out := by
  induction records generalizing sofar with
  | nil => exact takes_pure [] out
  | cons r rest ih =>
    obtain ⟨hsmall, hunpadded, hsize⟩ := h r (List.mem_cons_self ..)
    have hrest := ih (fun r hr => h r (List.mem_cons_of_mem _ hr)) hlimit
    have hwithin : (sofar.add r).within limit = true := within_of_foldl_add hlimit
    rw [recordNumbers, List.flatMap_cons, List.append_assoc]
    refine (takes_takeNumber_nine hunpadded out).bind ?_
    refine (takes_require (decide_eq_true hsmall) .corrupt out).bind_of_nil ?_
    refine (takes_takeNumber_nine hsize out).bind ?_
    refine (takes_require hwithin .corrupt out).bind_of_nil ?_
    change Takes _ (recordNumbers rest) _ _ _
    rw [← List.append_nil (recordNumbers rest)]
    exact hrest.bind (takes_pure _ out)

theorem length_crcBytes (bs : Bytes) : (crcBytes bs).length = 4 := LittleEndian.length_encode 4 _

def indexTail (records : List Record) : Bytes :=
  encodeNumber records.length ++ (recordNumbers records ++
    padding (1 + (encodeNumber records.length).length + (recordNumbers records).length))

theorem encodeIndex_eq (records : List Record) :
    encodeIndex records = 0 :: (indexTail records ++ crcBytes (0 :: indexTail records)) := by
  have hbody : (0 :: encodeNumber records.length ++ recordNumbers records : Bytes).length =
      1 + (encodeNumber records.length).length + (recordNumbers records).length := by
    simp only [List.length_append, List.length_cons]
    omega
  have hpadded : (0 :: encodeNumber records.length ++ recordNumbers records) ++
      padding (0 :: encodeNumber records.length ++ recordNumbers records).length =
        0 :: indexTail records := by
    rw [hbody, indexTail]
    simp only [List.append_assoc, List.cons_append]
  change _ ++ crcBytes _ = _
  rw [show (0 :: encodeNumber records.length ++ records.flatMap fun r => encodeNumber r.unpadded ++
    encodeNumber r.size) = 0 :: encodeNumber records.length ++ recordNumbers records from rfl,
    hpadded]
  rfl

/-- Reading the index behind its first byte. -/
theorem takeIndex_encodeIndex {records : List Record} (h : ∀ r ∈ records, r.Listable)
    (hcount : records.length < 128 ^ 9) (rest : Bytes) (taken : Nat) (out : Array UInt8) :
    takeIndex (indexTail records ++ crcBytes (0 :: indexTail records) ++ rest) records
        { input := indexTail records ++ crcBytes (0 :: indexTail records) ++ rest
          taken := taken + 1, out } =
      .ok (encodeIndex records).length
        { input := rest, taken := taken + (encodeIndex records).length, out } := by
  obtain ⟨first, sum, hsum⟩ : ∃ first sum, crcBytes (0 :: indexTail records) = first :: sum :=
    List.exists_cons_of_length_pos (by rw [length_crcBytes]; decide)
  have hwidth : sum.length = 3 := by
    have hlen := length_crcBytes (0 :: indexTail records)
    rw [hsum, List.length_cons] at hlen
    omega
  have hcounts : (encodeNumber records.length).length + (recordNumbers records).length +
      (padding (1 + (encodeNumber records.length).length + (recordNumbers records).length)).length =
        (indexTail records).length := by
    simp only [indexTail, List.length_append, Nat.add_assoc]
  have hgone : taken + 1 + (encodeNumber records.length).length + (recordNumbers records).length -
      taken = 1 + (encodeNumber records.length).length + (recordNumbers records).length := by
    omega
  have hall : taken + 1 + (encodeNumber records.length).length + (recordNumbers records).length +
      (padding (1 + (encodeNumber records.length).length + (recordNumbers records).length)).length -
        taken = (indexTail records).length + 1 := by
    omega
  have htake : (indexTail records ++ (first :: sum ++ rest)).take (indexTail records).length =
      indexTail records := List.take_left
  have hinput : indexTail records ++ (first :: sum ++ rest) = encodeNumber records.length ++
      (recordNumbers records ++ (padding (1 + (encodeNumber records.length).length +
        (recordNumbers records).length) ++ ([first] ++ (sum ++ rest)))) := by
    simp only [indexTail, List.append_assoc, List.cons_append, List.nil_append]
  rw [hsum, List.append_assoc, encodeIndex_eq, hsum]
  simp only [takeIndex, bind, EStateM.bind, get, getThe, MonadStateOf.get, EStateM.get,
    Nat.add_sub_cancel]
  rw [hinput, takes_takeNumber_nine hcount out, ← hinput]
  simp only [require_of_eq (beq_self_eq_true _)]
  rw [takes_takeRecords h (by simp [Totals.ofRecords, Totals.within]) out]
  simp only [hgone]
  rw [takes_takePadding _ out]
  simp only [takes_takeByte first out _ _, require_of_eq (beq_self_eq_true _), hall,
    Nat.add_sub_cancel, htake, hsum, List.head?_cons, List.tail_cons, takes_takeExactly sum out _ _,
    pure, EStateM.pure, List.length_cons, List.length_append, List.length_nil, hwidth]
  congr 2
  omega

/-! ### The block -/

def plainHeader : BlockHeader where
  width := 12
  packed := none
  size := none
  filters := { deltas := [], window := Lzma.limits.maxDistance }

theorem decodeBlockHeader_writerBlockHeader :
    decodeBlockHeader writerBlockHeader = .ok plainHeader := by
  decide +kernel

/-- Under a header that states no sizes and no further filters, the data is what its chunks say. -/
theorem takeBlockData_of_ok {h : BlockHeader} (hpacked : h.packed = none) (hsize : h.size = none)
    {window : Nat} (hfilters : h.filters = { deltas := [], window }) {input : Bytes}
    {u : Lzma.Unpacker}
    (hu : Lzma.Unpacker.takeChunks (input.length + 1) (Lzma.Unpacker.start input window) = .ok () u)
    (taken : Nat) (out : Array UInt8) :
    takeBlockData h { input, taken, out } = .ok { unpadded := u.taken, size := u.out.size }
      { input := u.input, taken := taken + u.taken, out := out ++ u.out } := by
  simp only [takeBlockData, hfilters, hu, hpacked, hsize, List.reverse_nil, List.foldl_nil,
    Option.any_none, Bool.false_eq_true, or_self, if_false]

theorem takes_takeBlockData (bs : Bytes) (out : Array UInt8) :
    Takes (takeBlockData plainHeader) (Lzma.pack bs)
      { unpadded := (Lzma.pack bs).length, size := bs.length } out (out ++ bs.toArray) := by
  intro rest taken
  obtain ⟨u, hu, hout, hrest, htaken⟩ := Lzma.Unpacker.takeChunks_pack bs rest
  rw [takeBlockData_of_ok rfl rfl rfl hu, hout, hrest, htaken]
  rfl

def blockTail (bs : Bytes) : Bytes :=
  writerBlockHeader.tail ++ (Lzma.pack bs ++ (padding (Lzma.pack bs).length ++
    (check? 4 bs).getD []))

theorem encodeBlock_eq (bs : Bytes) : (encodeBlock bs).1 = 2 :: blockTail bs := by
  simp only [encodeBlock, blockTail, List.append_assoc]
  rfl

theorem length_writerBlockHeader : writerBlockHeader.length = 12 := by
  simp only [writerBlockHeader, List.length_append, length_crcBytes, List.length_cons,
    List.length_nil]

/-- Reading a block behind the first byte of its header. -/
theorem takes_takeBlock (bs : Bytes) :
    Takes (takeBlock 4 2) (blockTail bs) (encodeBlock bs).2 #[] bs.toArray := by
  have hheader : (2 : UInt8) :: writerBlockHeader.tail = writerBlockHeader := rfl
  have hwidth : ((2 : UInt8).toNat + 1) * 4 - 1 = writerBlockHeader.tail.length := by
    rw [List.length_tail, length_writerBlockHeader]
    rfl
  rw [blockTail]
  have htake := takes_take writerBlockHeader.tail #[]
  rw [← hwidth] at htake
  refine htake.bind ?_
  rw [hheader, decodeBlockHeader_writerBlockHeader]
  refine takes_get fun s hs _ => ?_
  refine (takes_takeBlockData bs #[]).bind ?_
  refine (takes_takePadding (Lzma.pack bs).length _).bind ?_
  have hsum : (check? 4 bs).getD [] = LittleEndian.encode 8 (Crc64.crc64 bs).toNat := rfl
  have hlength : checkSize 4 = ((check? 4 bs).getD []).length := by
    rw [hsum, LittleEndian.length_encode]
    rfl
  have hcheck := takes_take ((check? 4 bs).getD []) (#[] ++ bs.toArray)
  rw [← hlength] at hcheck
  rw [← List.append_nil ((check? 4 bs).getD [])]
  refine hcheck.bind (takes_get fun s' hs' _ => ?_)
  have hdata : (s'.out.extract s.out.size (s.out.size + bs.length)).toList = bs := by
    simp [hs, hs']
  simp only [hdata]
  refine (takes_require (by simp [check?]) _ _).bind_of_nil ?_
  have hrecord : Record.mk ((Lzma.pack bs).length + ((2 : UInt8).toNat + 1) * 4 + checkSize 4)
      bs.length = (encodeBlock bs).2 := by
    simp only [encodeBlock, length_writerBlockHeader]
    rw [Nat.add_comm 12]
    rfl
  rw [hrecord, Array.empty_append]
  exact takes_pure _ _

/-! ### The stream -/

theorem takes_takeBlocks_index (records : List Record) (h : ∀ r ∈ records, r.Listable)
    (hcount : records.length < 128 ^ 9) (kind fuel : Nat) (out : Array UInt8) :
    Takes (takeBlocks kind (fuel + 1) records.reverse) (encodeIndex records)
      (encodeIndex records).length out out := by
  intro rest taken
  have hindex := takeIndex_encodeIndex h hcount rest taken out
  rw [encodeIndex_eq] at hindex ⊢
  have hfirst := takes_takeByte 0 out
    (indexTail records ++ crcBytes (0 :: indexTail records) ++ rest) taken
  simp only [takeBlocks, bind, EStateM.bind]
  rw [List.cons_append, ← List.singleton_append, hfirst]
  simp only [if_true, get, getThe, MonadStateOf.get, List.reverse_reverse]
  exact hindex

theorem takes_takeBlocks_block (bs : Bytes) (h : (encodeBlock bs).2.Listable) (fuel : Nat) :
    Takes (takeBlocks 4 (fuel + 2) []) ((encodeBlock bs).1 ++ encodeIndex [(encodeBlock bs).2])
      (encodeIndex [(encodeBlock bs).2]).length #[] bs.toArray := by
  have hblock := takes_takeBlock bs
  rw [encodeBlock_eq, ← List.singleton_append, List.append_assoc]
  generalize (encodeBlock bs).2 = r at *
  have hindex := takes_takeBlocks_index [r] (by simpa using h) (by simp) 4 fuel
    bs.toArray
  refine (takes_takeByte 2 #[]).bind ?_
  rw [if_neg (by decide)]
  exact hblock.bind hindex

theorem length_encodeIndex (records : List Record) (h : ∀ r ∈ records, r.Listable)
    (hcount : records.length ≤ 1) :
    (encodeIndex records).length % 4 = 0 ∧ 8 ≤ (encodeIndex records).length ∧
      (encodeIndex records).length < 256 ^ 4 := by
  have hnumbers : (recordNumbers records).length ≤ 18 := by
    match records, hcount with
    | [], _ => decide
    | [r], _ =>
      obtain ⟨-, hunpadded, hsize⟩ := h r (List.mem_cons_self ..)
      have hone := length_encodeNumber_le hunpadded (by decide)
      have htwo := length_encodeNumber_le hsize (by decide)
      simp only [recordNumbers, List.flatMap_cons, List.flatMap_nil, List.append_nil,
        List.length_append]
      omega
  have hnumber : 1 ≤ (encodeNumber records.length).length ∧
      (encodeNumber records.length).length ≤ 1 := by
    rw [encodeNumber, if_pos (by omega)]
    exact ⟨Nat.le_refl 1, Nat.le_refl 1⟩
  simp only [encodeIndex_eq, indexTail, List.length_cons, List.length_append, length_crcBytes,
    padding, List.length_replicate]
  omega

def footerBody (indexLength : Nat) : Bytes :=
  LittleEndian.encode 4 (indexLength / 4 - 1) ++ writerSettings

theorem length_footerBody (indexLength : Nat) : (footerBody indexLength).length = 6 := by
  simp only [footerBody, List.length_append, LittleEndian.length_encode]
  rfl

theorem takes_checkKind (out : Array UInt8) : Takes (checkKind writerSettings) [] 4 out out :=
  fun _ _ => rfl

def takeFooter (settings : Bytes) (indexLength : Nat) : Read Unit := do
  let footer ← Reader.take 12
  Reader.require (footer.drop 10 == footerMagic) .corrupt
  let body := (footer.drop 4).take 6
  Reader.require (crcBytes body == footer.take 4) .corrupt
  let _ ← checkKind (body.drop 4)
  Reader.require ((LittleEndian.decode (body.take 4) + 1) * 4 == indexLength) .corrupt
  Reader.require (body.drop 4 == settings) .corrupt

theorem takes_takeFooter {indexLength : Nat} (hfour : indexLength % 4 = 0) (hmin : 4 ≤ indexLength)
    (hmax : indexLength < 256 ^ 4) (out : Array UInt8) :
    Takes (takeFooter writerSettings indexLength)
      (crcBytes (footerBody indexLength) ++ footerBody indexLength ++ footerMagic) () out out := by
  have hsum := length_crcBytes (footerBody indexLength)
  have hbody := length_footerBody indexLength
  have hback : LittleEndian.decode ((footerBody indexLength).take 4) = indexLength / 4 - 1 := by
    rw [footerBody, List.take_left' (LittleEndian.length_encode 4 _), LittleEndian.decode_encode,
      Nat.mod_eq_of_lt (by omega)]
  have hsettings : (footerBody indexLength).drop 4 = writerSettings :=
    List.drop_left' (LittleEndian.length_encode 4 _)
  generalize hcrc : crcBytes (footerBody indexLength) = sum at *
  generalize footerBody indexLength = body at *
  have hlength : (sum ++ body ++ footerMagic).length = 12 := by
    simp only [List.length_append, hsum, hbody]
    rfl
  have hmagic : (sum ++ body ++ footerMagic).drop 10 = footerMagic :=
    List.drop_left' (by rw [List.length_append, hsum, hbody])
  have hmiddle : ((sum ++ body ++ footerMagic).drop 4).take 6 = body := by
    rw [List.append_assoc, List.drop_left' hsum, List.take_left' hbody]
  have hfirst : (sum ++ body ++ footerMagic).take 4 = sum := by
    rw [List.append_assoc, List.take_left' hsum]
  have htake := takes_take (sum ++ body ++ footerMagic) out
  rw [hlength] at htake
  rw [← List.append_nil (sum ++ body ++ footerMagic)]
  refine htake.bind ?_
  simp only [hmagic, hmiddle, hfirst, hcrc, hback, hsettings]
  refine (takes_require (beq_self_eq_true _) .corrupt out).bind_of_nil ?_
  refine (takes_require (beq_self_eq_true _) .corrupt out).bind_of_nil ?_
  refine (takes_checkKind out).bind_of_nil ?_
  refine (takes_require (beq_iff_eq.2 (by omega)) .corrupt out).bind_of_nil ?_
  exact takes_require (beq_self_eq_true _) .corrupt out

theorem takeStream_eq : takeStream = (do
    let header ← Reader.take 12
    Reader.require (header.take 6 == headerMagic) .unrecognized
    let settings := (header.drop 6).take 2
    Reader.require (crcBytes settings == header.drop 8) .corrupt
    let kind ← checkKind settings
    let indexLength ← takeBlocks kind ((← get).input.length + 1) []
    takeFooter settings indexLength) := rfl

/-- Header, blocks, index and footer make a stream. -/
theorem takes_takeStream {blocks index : Bytes}
    (hblocks : ∀ fuel, Takes (takeBlocks 4 (fuel + 2) []) (blocks ++ index) index.length #[] out)
    (hfour : index.length % 4 = 0) (hmin : 8 ≤ index.length) (hmax : index.length < 256 ^ 4) :
    Takes takeStream (headerMagic ++ writerSettings ++ crcBytes writerSettings ++
      (blocks ++ index ++ (crcBytes (footerBody index.length) ++ footerBody index.length ++
        footerMagic))) () #[] out := by
  have hlength : (headerMagic ++ writerSettings ++ crcBytes writerSettings).length = 12 := by
    rw [List.length_append, length_crcBytes]
    rfl
  have htake := takes_take (headerMagic ++ writerSettings ++ crcBytes writerSettings) #[]
  rw [hlength] at htake
  have hmagic :
      (headerMagic ++ writerSettings ++ crcBytes writerSettings).take 6 = headerMagic := rfl
  have hsettings : ((headerMagic ++ writerSettings ++ crcBytes writerSettings).drop 6).take 2 =
      writerSettings := rfl
  have hsum : (headerMagic ++ writerSettings ++ crcBytes writerSettings).drop 8 =
      crcBytes writerSettings := rfl
  rw [takeStream_eq]
  refine htake.bind ?_
  simp only [hmagic, hsettings, hsum]
  refine (takes_require (beq_self_eq_true _) .unrecognized _).bind_of_nil ?_
  refine (takes_require (beq_self_eq_true _) .corrupt _).bind_of_nil ?_
  refine (takes_checkKind _).bind_of_nil ?_
  have hfooter := takes_takeFooter hfour (by omega) hmax out
  generalize crcBytes (footerBody index.length) ++ footerBody index.length ++ footerMagic =
    footer at *
  refine takes_get fun s _ (hs : (blocks ++ index ++ footer).length ≤ s.input.length) => ?_
  obtain ⟨fuel, hfuel⟩ : ∃ fuel, s.input.length + 1 = fuel + 2 := by
    simp only [List.length_append] at hs
    exact ⟨s.input.length - 1, by omega⟩
  rw [hfuel]
  exact (hblocks fuel).bind hfooter

theorem encode_eq (bs : Bytes) :
    encode bs =
      let records := if bs.isEmpty then [] else [(encodeBlock bs).2]
      headerMagic ++ writerSettings ++ crcBytes writerSettings ++
        ((if bs.isEmpty then [] else (encodeBlock bs).1) ++ encodeIndex records ++
          (crcBytes (footerBody (encodeIndex records).length) ++
            footerBody (encodeIndex records).length ++ footerMagic)) := by
  simp only [encode, footerBody, List.append_assoc]

/-- An xz stream that was written is read back, as long as its sizes can be listed. -/
theorem decode_encode (bs : Bytes) (hsize : bs.length < 128 ^ 9)
    (hpacked : (Lzma.pack bs).length + 20 < 128 ^ 9) :
    decode (encode bs) = { output := bs, used := (encode bs).length, stop := none } := by
  have hstream : Takes takeStream (encode bs) () #[] bs.toArray := by
    rw [encode_eq]
    by_cases hempty : bs.isEmpty = true
    · obtain rfl : bs = [] := List.isEmpty_iff.1 hempty
      have hindex := length_encodeIndex [] (by simp) (by decide)
      simp only [hempty, if_true]
      refine takes_takeStream (fun fuel => ?_) hindex.1 hindex.2.1 hindex.2.2
      exact takes_takeBlocks_index [] (by simp) (by simp) 4 (fuel + 1) #[]
    · have hlistable : (encodeBlock bs).2.Listable := by
        simp only [encodeBlock, Record.Listable, length_writerBlockHeader, smallestBlock]
        exact ⟨by omega, by omega, hsize⟩
      have hindex := length_encodeIndex [(encodeBlock bs).2] (by simpa using hlistable)
        (by simp)
      simp only [hempty, Bool.false_eq_true, if_false]
      exact takes_takeStream (takes_takeBlocks_block bs hlistable) hindex.1 hindex.2.1 hindex.2.2
  have hrun := hstream [] 0
  rw [List.append_nil, Nat.zero_add] at hrun
  simp only [decode, hrun]

end SectionArchive.Xz
