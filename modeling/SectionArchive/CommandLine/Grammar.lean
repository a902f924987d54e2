/-!
Argument words and their meaning. A word that starts with a dash and goes on is an option, until a
lone double dash makes all that follows plain. Each option is met with the plain words up to the
next option: it takes as many as it can hold, and the others are arguments by position. Words count
in the order in which they stand, so help that is asked for before the first mistake is given.
-/

namespace SectionArchive.CommandLine

inductive Refusal
  | help
  | noCommand
  | unknownCommand (name : String)
  | unknownOption (word : String)
  /-- An option with a wrong number of values, with a value of the wrong form, or given twice. -/
  | badOption (name : String)
  /-- An argument that has no place or the wrong form. -/
  | badArgument (word : String)
  | incomplete
deriving DecidableEq, Repr

inductive Arity
  | none
  | one
  | many
deriving DecidableEq, Repr

/-- An option of a command whose arguments are gathered in a `σ`. -/
structure Opt (σ : Type) where
  name : String
  letter : Option Char
  arity : Arity
  /-- Take note of the values, if they are acceptable. -/
  take : List String → σ → Option σ

structure Grammar (σ : Type) where
  options : List (Opt σ)
  /-- Take note of an argument by position, if there is a place for it. -/
  positional : String → σ → Option σ

/-- An option as it is written: by its name or its letter, and with a value in the same word. -/
structure Written where
  name : String ⊕ Char
  attached : Option String
deriving DecidableEq, Repr

namespace Written

def behindEquals : List Char → Option String
  | '=' :: value => some (String.ofList value)
  | _ => none

/-- Take an option word apart; nothing if the word is plain. A letter's value needs no equals
sign. -/
def ofWord? (word : String) : Option Written :=
  match word.toList with
  | '-' :: '-' :: rest =>
    some { name := .inl (String.ofList (rest.takeWhile (· ≠ '='))),
           attached := behindEquals (rest.dropWhile (· ≠ '=')) }
  | '-' :: c :: [] => some { name := .inr c, attached := none }
  | '-' :: c :: rest =>
    some { name := .inr c, attached := (behindEquals rest).getD (String.ofList rest) }
  | _ => none

def isHelp (w : Written) : Bool :=
  w.name = .inr 'h' || (w.name = .inl "help" && w.attached.isNone)

end Written

/-- The plain words in front, then each option with the plain words behind it. -/
def segments : List String → List String × List (String × Written × List String)
  | [] => ([], [])
  | word :: rest =>
    let (plain, more) := segments rest
    match Written.ofWord? word with
    | some w => ([], (word, w, plain) :: more)
    | none => (word :: plain, more)

namespace Grammar

variable {σ : Type}

def find? (g : Grammar σ) (w : Written) : Option (Opt σ) :=
  g.options.find? fun o =>
    match w.name with
    | .inl name => o.name = name
    | .inr letter => o.letter = some letter

def readPlain (g : Grammar σ) (s : σ) (word : String) : Except Refusal σ :=
  match g.positional word s with
  | some s => .ok s
  | none => .error (.badArgument word)

/-- The values that an option gets of those attached and behind it, and the words it leaves. -/
def share : Arity → Option String → List String → List String × List String
  | _, some v, plain => ([v], plain)
  | .none, none, plain => ([], plain)
  | .one, none, plain => (plain.take 1, plain.drop 1)
  | .many, none, plain => (plain, [])

def readSegment (g : Grammar σ) (s : σ) (segment : String × Written × List String) :
    Except Refusal σ :=
  let (word, w, plain) := segment
  if w.isHelp then .error .help
  else
    match g.find? w with
    | none => .error (.unknownOption word)
    | some o =>
      let (values, left) := share o.arity w.attached plain
      match o.take values s with
      | none => .error (.badOption o.name)
      | some s => left.foldlM g.readPlain s

def read (g : Grammar σ) (start : σ) (words : List String) : Except Refusal σ := do
  let (plain, options) := segments (words.takeWhile (· ≠ "--"))
  let s ← plain.foldlM g.readPlain start
  let s ← options.foldlM g.readSegment s
  ((words.dropWhile (· ≠ "--")).drop 1).foldlM g.readPlain s

end Grammar

end SectionArchive.CommandLine
