import SectionArchive.Deflate.Huffman
/-!
The two alphabets of deflate. Lengths 3 to 258 and distances 1 to 32768 are each split into ranges;
a symbol names the range and extra bits the place in it.
-/

namespace SectionArchive.Deflate

/-- A range of values: the first, and how many extra bits tell the place in it. -/
structure ValueRange where
  base : Nat
  extra : Nat
deriving DecidableEq, Repr

def lengthRanges : Array ValueRange := #[
  ⟨3, 0⟩, ⟨4, 0⟩, ⟨5, 0⟩, ⟨6, 0⟩, ⟨7, 0⟩, ⟨8, 0⟩, ⟨9, 0⟩, ⟨10, 0⟩, ⟨11, 1⟩, ⟨13, 1⟩, ⟨15, 1⟩,
  ⟨17, 1⟩, ⟨19, 2⟩, ⟨23, 2⟩, ⟨27, 2⟩, ⟨31, 2⟩, ⟨35, 3⟩, ⟨43, 3⟩, ⟨51, 3⟩, ⟨59, 3⟩, ⟨67, 4⟩,
  ⟨83, 4⟩, ⟨99, 4⟩, ⟨115, 4⟩, ⟨131, 5⟩, ⟨163, 5⟩, ⟨195, 5⟩, ⟨227, 5⟩, ⟨258, 0⟩]

def distanceRanges : Array ValueRange := #[
  ⟨1, 0⟩, ⟨2, 0⟩, ⟨3, 0⟩, ⟨4, 0⟩, ⟨5, 1⟩, ⟨7, 1⟩, ⟨9, 2⟩, ⟨13, 2⟩, ⟨17, 3⟩, ⟨25, 3⟩, ⟨33, 4⟩,
  ⟨49, 4⟩, ⟨65, 5⟩, ⟨97, 5⟩, ⟨129, 6⟩, ⟨193, 6⟩, ⟨257, 7⟩, ⟨385, 7⟩, ⟨513, 8⟩, ⟨769, 8⟩,
  ⟨1025, 9⟩, ⟨1537, 9⟩, ⟨2049, 10⟩, ⟨3073, 10⟩, ⟨4097, 11⟩, ⟨6145, 11⟩, ⟨8193, 12⟩, ⟨12289, 12⟩,
  ⟨16385, 13⟩, ⟨24577, 13⟩]

def endOfBlock : Nat := 256

def firstLength : Nat := 257

def fixedLiteralLengths : List Nat :=
  List.replicate 144 8 ++ List.replicate 112 9 ++ List.replicate 24 7 ++ List.replicate 8 8

/-- The code lengths of the fixed distance code; its last two words mean nothing. -/
def fixedDistanceLengths : List Nat := List.replicate 32 5

def fixedLiterals : Tree := .ofLengths fixedLiteralLengths

def fixedDistances : Tree := .ofLengths fixedDistanceLengths

def rangeIndex (ranges : Array ValueRange) (value : Nat) : Nat :=
  (ranges.toList.filter fun r => r.base ≤ value).length - 1

def takeValue (ranges : Array ValueRange) (index : Nat) : Inflate Nat :=
  match ranges[index]? with
  | none => throw .corrupt
  | some r => do
    let place ← takeBits r.extra
    return r.base + place

end SectionArchive.Deflate
