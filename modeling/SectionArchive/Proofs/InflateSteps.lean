import Mathlib
import SectionArchive.Deflate.Inflate
import SectionArchive.Proofs.Numbers
/-!
What an inflater does to bits that were written for it. A step reads some bits with a result when it
takes just these bits off the front, whatever follows them, and changes the output in a known way;
steps in a row read their bits in a row.
-/

namespace SectionArchive.Deflate

/-- The step takes the bits `u`, gives `a`, and brings the output from `out` to `out'`. -/
def Reads {α : Type} (m : Inflate α) (u : List Bool) (a : α) (out out' : Array UInt8) : Prop :=
  ∀ (rest : List Bool) (taken : Nat),
    m { bits := u ++ rest, taken, out } =
      .ok a { bits := rest, taken := taken + u.length, out := out' }

theorem reads_pure {α : Type} (a : α) (out : Array UInt8) :
    Reads (pure a : Inflate α) [] a out out := fun _ _ => rfl

theorem reads_bind {α β : Type} {m : Inflate α} {f : α → Inflate β} {u v : List Bool} {a : α}
    {b : β} {out out' out'' : Array UInt8} (hm : Reads m u a out out')
    (hf : Reads (f a) v b out' out'') :
    Reads (m >>= f) (u ++ v) b out out'' := by
  intro rest taken
  have hfirst := hm (v ++ rest) taken
  have hsecond := hf rest (taken + u.length)
  simp only [bind, EStateM.bind, List.append_assoc, hfirst, hsecond, List.length_append,
    Nat.add_assoc]

theorem reads_map {α β : Type} {m : Inflate α} {u : List Bool} {a : α} {out out' : Array UInt8}
    (hm : Reads m u a out out') (g : α → β) :
    Reads (m >>= fun x => pure (g x)) u (g a) out out' := by
  have h := reads_bind (f := fun x => pure (g x)) hm (reads_pure (g a) out')
  rwa [List.append_nil] at h

theorem reads_takeBit (b : Bool) (out : Array UInt8) : Reads takeBit [b] b out out :=
  fun _ _ => rfl

theorem reads_takeBits (w n : Nat) (out : Array UInt8) :
    Reads (takeBits w) (numberBits w n) (n % 2 ^ w) out out := by
  rw [← ofBits_numberBits]
  induction w generalizing n with
  | zero => exact reads_pure 0 out
  | succ w ih =>
    exact reads_bind (reads_takeBit (n % 2 == 1) out)
      (reads_map (ih (n / 2)) fun high => (n % 2 == 1).toNat + 2 * high)

theorem reads_takeBits_of_lt {w n : Nat} (hn : n < 2 ^ w) (out : Array UInt8) :
    Reads (takeBits w) (numberBits w n) n out out := by
  have h := reads_takeBits w n out
  rwa [Nat.mod_eq_of_lt hn] at h

theorem reads_decode {t : Tree} {symbol : Nat} {word : List Bool} (h : (symbol, word) ∈ t.words)
    (out : Array UInt8) : Reads t.decode word symbol out out :=
  fun rest taken => t.decode_word h { bits := [], taken, out } rest

theorem reads_emit (b : UInt8) (out : Array UInt8) : Reads (emit b) [] () out (out.push b) :=
  fun _ _ => rfl

theorem reads_require {condition : Bool} (h : condition = true) (out : Array UInt8) :
    Reads (require condition) [] () out out := by
  subst h
  exact reads_pure () out

theorem reads_copy {length distance : Nat} {out : Array UInt8} (h : distance ≤ out.size) :
    Reads (copy length distance) [] () out (Lz77.copyFrom distance length out) := by
  intro rest taken
  simp [copy, Nat.not_lt.2 h]

/-! ### Bytes as bits -/

theorem byteBits_ofNat : ∀ n < 256, byteBits (UInt8.ofNat n) = numberBits 8 n := by
  decide +kernel

theorem byteBits_eq (b : UInt8) : byteBits b = numberBits 8 b.toNat := by
  rw [← byteBits_ofNat b.toNat b.toNat_lt, UInt8.ofNat_toNat]

/-- The next byte read as a number. -/
theorem reads_byte (b : UInt8) (out : Array UInt8) :
    Reads (takeBits 8) (byteBits b) b.toNat out out := by
  rw [byteBits_eq]
  exact reads_takeBits_of_lt b.toNat_lt out

theorem bitsOf_append (a b : Bytes) : bitsOf (a ++ b) = bitsOf a ++ bitsOf b := by
  simp [bitsOf]

/-! ### Filling bytes with bits -/

def fill (n : Nat) : List Bool := List.replicate ((8 - n % 8) % 8) false

theorem byteBits_ofBits_eight : ∀ b0 b1 b2 b3 b4 b5 b6 b7 : Bool,
    byteBits (UInt8.ofNat (ofBits [b0, b1, b2, b3, b4, b5, b6, b7])) =
      [b0, b1, b2, b3, b4, b5, b6, b7] := by
  decide +kernel

theorem exists_eight_bits (bits : List Bool) (h : bits.length = 8) :
    ∃ b0 b1 b2 b3 b4 b5 b6 b7 : Bool, bits = [b0, b1, b2, b3, b4, b5, b6, b7] := by
  match bits, h with
  | [b0, b1, b2, b3, b4, b5, b6, b7], _ => exact ⟨b0, b1, b2, b3, b4, b5, b6, b7, rfl⟩

theorem ofBits_append_replicate (bits : List Bool) (n : Nat) :
    ofBits (bits ++ List.replicate n false) = ofBits bits := by
  induction bits with
  | nil =>
    induction n with
    | zero => rfl
    | succ n ih => simpa [List.replicate_succ, ofBits] using ih
  | cons b bits ih => simp [ofBits, ih]

/-- At most eight bits in a byte come back with zeros behind them. -/
theorem byteBits_ofBits (bits : List Bool) (h : bits.length ≤ 8) :
    byteBits (UInt8.ofNat (ofBits bits)) = bits ++ List.replicate (8 - bits.length) false := by
  rw [← ofBits_append_replicate bits (8 - bits.length)]
  obtain ⟨b0, b1, b2, b3, b4, b5, b6, b7, h8⟩ :=
    exists_eight_bits (bits ++ List.replicate (8 - bits.length) false) (by simp; omega)
  rw [h8, byteBits_ofBits_eight]

theorem bitsOf_packMore (done : Array UInt8) (bits : List Bool) :
    bitsOf (packMore done bits).toList = bitsOf done.toList ++ bits ++ fill bits.length := by
  fun_induction packMore done bits with
  | case1 done b0 b1 b2 b3 b4 b5 b6 b7 rest ih =>
    rw [ih, Array.toList_push, bitsOf_append]
    simp only [bitsOf, List.flatMap_cons, List.flatMap_nil, List.append_nil, byteBits_ofBits_eight,
      List.append_assoc, List.cons_append, List.nil_append, List.length_cons, fill,
      Nat.add_assoc, Nat.reduceAdd, Nat.add_mod_right]
  | case2 done => simp [fill]
  | case3 done last hlong hnil =>
    have hpos : 0 < last.length := List.length_pos_iff.2 hnil
    have hlen : last.length < 8 := by
      match last, hlong with
      | [], _ | [_], _ | [_, _], _ | [_, _, _], _ | [_, _, _, _], _ | [_, _, _, _, _], _
      | [_, _, _, _, _, _], _ | [_, _, _, _, _, _, _], _ => simp
      | _ :: _ :: _ :: _ :: _ :: _ :: _ :: _ :: _, hlong => exact (hlong _ _ _ _ _ _ _ _ _ rfl).elim
    rw [Array.toList_push, bitsOf_append, List.append_assoc]
    simp only [bitsOf, List.flatMap_cons, List.flatMap_nil, List.append_nil,
      byteBits_ofBits last (by omega), fill, Nat.mod_eq_of_lt hlen,
      Nat.mod_eq_of_lt (show 8 - last.length < 8 by omega)]

/-- Packed bits come back with zeros up to a whole byte. -/
theorem bitsOf_pack (bits : List Bool) : bitsOf (pack bits) = bits ++ fill bits.length := by
  rw [pack, bitsOf_packMore]
  rfl

end SectionArchive.Deflate
