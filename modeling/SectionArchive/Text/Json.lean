/-!
JSON documents of the kind that reports need, written out with one member a line.
-/

namespace SectionArchive.Json

inductive Value
  | number (n : Nat)
  | array (items : List Value)
  | object (fields : List (String × Value))

def deeper (margin : String) : String := margin ++ "  "

def enclose (left right margin : String) (members : List String) : String :=
  if members.isEmpty then left ++ right
  else
    left ++ ",".intercalate (members.map fun m => "\n" ++ deeper margin ++ m) ++ "\n" ++ margin ++
      right

mutual

def Value.render (margin : String) : Value → String
  | .number n => toString n
  | .array items => enclose "[" "]" margin (renderItems (deeper margin) items)
  | .object fields => enclose "\x7b" "\x7d" margin (renderFields (deeper margin) fields)

def renderItems (margin : String) : List Value → List String
  | [] => []
  | v :: rest => v.render margin :: renderItems margin rest

def renderFields (margin : String) : List (String × Value) → List String
  | [] => []
  | (name, v) :: rest =>
    ("\"" ++ name ++ "\": " ++ v.render margin) :: renderFields margin rest

end

end SectionArchive.Json
