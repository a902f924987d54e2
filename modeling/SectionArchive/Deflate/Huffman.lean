import SectionArchive.Deflate.Bits
/-!
Canonical Huffman codes as trees. Shorter code words come first and equal lengths go by symbol, so
a tree is grown from the left over the symbols in that order. The code word of a symbol is the
path to its leaf, which is also how it is read back.
-/

namespace SectionArchive.Deflate

/-- A code tree: a zero bit goes left, a one bit right. -/
inductive Tree
  /-- No code word leads here. -/
  | empty
  | leaf (symbol : Nat)
  | node (zero one : Tree)
deriving DecidableEq, Repr

def maxCodeLength : Nat := 15

/-- Grow a subtree at some depth over (length, symbol) pairs in canonical order, giving the pairs
left over. -/
def Tree.grow : (levels depth : Nat) → List (Nat × Nat) → Tree × List (Nat × Nat)
  | _, _, [] => (.empty, [])
  | 0, depth, (length, symbol) :: rest =>
    if length ≤ depth then (.leaf symbol, rest) else (.empty, (length, symbol) :: rest)
  | levels + 1, depth, (length, symbol) :: rest =>
    if length ≤ depth then (.leaf symbol, rest)
    else
      let (zero, rest) := grow levels (depth + 1) ((length, symbol) :: rest)
      let (one, rest) := grow levels (depth + 1) rest
      (.node zero one, rest)

def canonicalOrder (lengths : List Nat) : List (Nat × Nat) :=
  (List.range maxCodeLength).flatMap fun l =>
    lengths.zipIdx.filter fun p => p.1 = l + 1

/-- The canonical tree for the code lengths of symbols 0, 1, …; length zero means unused. -/
def Tree.ofLengths (lengths : List Nat) : Tree :=
  (Tree.grow maxCodeLength 0 (canonicalOrder lengths)).1

/-- The share of all code words of the longest length that these lengths take up. -/
def codeSpace (lengths : List Nat) : Nat :=
  lengths.foldl (fun space l => if l = 0 then space else space + 1 <<< (maxCodeLength - l)) 0

def isComplete (lengths : List Nat) : Bool := codeSpace lengths == 1 <<< maxCodeLength

/-- Whether the lengths make a code: complete, or with at most one symbol. -/
def isCode (lengths : List Nat) : Bool :=
  isComplete lengths || (lengths.filter (· ≠ 0)).length ≤ 1

def Tree.decode : Tree → Inflate Nat
  | .empty => throw .corrupt
  | .leaf symbol => pure symbol
  | .node zero one => do
    if ← takeBit then one.decode else zero.decode

def Tree.words : Tree → List (Nat × List Bool)
  | .empty => []
  | .leaf symbol => [(symbol, [])]
  | .node zero one =>
    (zero.words.map fun w => (w.1, false :: w.2)) ++ one.words.map fun w => (w.1, true :: w.2)

def Tree.codeBook (t : Tree) (n : Nat) : Array (List Bool) :=
  t.words.foldl (fun book w => book.setIfInBounds w.1 w.2) (Array.replicate n [])

/-- Reading a code word gives its symbol and takes just its bits. -/
theorem Tree.decode_word {t : Tree} {symbol : Nat} {word : List Bool}
    (h : (symbol, word) ∈ t.words) (s : Inflater) (rest : List Bool) :
    t.decode { s with bits := word ++ rest } =
      .ok symbol { s with bits := rest, taken := s.taken + word.length } := by
  induction t generalizing word s with
  | empty => simp [Tree.words] at h
  | leaf x =>
    simp only [Tree.words, List.mem_singleton, Prod.mk.injEq] at h
    obtain ⟨rfl, rfl⟩ := h
    rfl
  | node zero one ihz iho =>
    simp only [Tree.words, List.mem_append, List.mem_map, Prod.mk.injEq] at h
    rcases h with ⟨⟨x, w⟩, hm, rfl, rfl⟩ | ⟨⟨x, w⟩, hm, rfl, rfl⟩
    · have := ihz hm { s with taken := s.taken + 1 }
      simp only [Tree.decode, bind, EStateM.bind, takeBit, List.cons_append, List.length_cons,
        Nat.add_comm w.length 1, ← Nat.add_assoc] at this ⊢
      simpa using this
    · have := iho hm { s with taken := s.taken + 1 }
      simp only [Tree.decode, bind, EStateM.bind, takeBit, List.cons_append, List.length_cons,
        Nat.add_comm w.length 1, ← Nat.add_assoc] at this ⊢
      simpa using this

end SectionArchive.Deflate
