/-!
Paths as text. A path is cut at slashes; empty parts and single dots in it name nothing, but ask
that what stands before them is a directory.
-/

namespace SectionArchive.Path

def cut : List Char → List (List Char)
  | [] => [[]]
  | c :: rest =>
    if c = '/' then [] :: cut rest
    else
      match cut rest with
      | [] => [[c]]
      | part :: more => (c :: part) :: more

theorem cut_ne_nil (cs : List Char) : cut cs ≠ [] := by
  cases cs with
  | nil => simp [cut]
  | cons c rest =>
    simp only [cut]
    split
    · simp
    · split <;> simp

/-- Cutting at a slash in the middle cuts both sides on their own. -/
theorem cut_append (a b : List Char) : cut (a ++ '/' :: b) = cut a ++ cut b := by
  induction a with
  | nil => simp [cut]
  | cons c rest ih =>
    simp only [List.cons_append, cut, ih]
    split
    · simp
    · cases h : cut rest with
      | nil => exact absurd h (cut_ne_nil rest)
      | cons part more => simp

def parts (path : String) : List String := (cut path.toList).map String.ofList

def isAbsolute (path : String) : Bool := path.toList.head? = some '/'

def asksDirectory (path : String) : Bool := path.toList.getLast? = some '/'

def maxName : Nat := 255

def maxPath : Nat := 4095

def join (dir name : String) : String :=
  if dir.isEmpty ∨ asksDirectory dir then dir ++ name else dir ++ "/" ++ name

/-- The parts that name something, a single dot only at the front. -/
def components (path : String) : List String :=
  match parts path with
  | [] => []
  | first :: rest =>
    (if first = "" then [] else [first]) ++ rest.filter fun p => p ≠ "" ∧ p ≠ "."

def ofComponents (isAbsolute : Bool) (components : List String) : String :=
  (if isAbsolute then "/" else "") ++ "/".intercalate components

end SectionArchive.Path
