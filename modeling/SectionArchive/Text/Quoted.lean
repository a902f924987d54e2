import SectionArchive.Text.Digits
import SectionArchive.Text.Printable
/-!
Text between double quotes, every character visible: quotes and backslashes behind a backslash,
the usual letters for blanks, and the number of any other character that is not printable.
-/

namespace SectionArchive.Quoted

def escape (c : Char) : String :=
  match c with
  | '\x00' => "\\0"
  | '\t' => "\\t"
  | '\n' => "\\n"
  | '\r' => "\\r"
  | '\\' => "\\\\"
  | '"' => "\\\""
  | '\'' => "\\'"
  | c =>
    if Printable.isPrintable c then String.singleton c
    else "\\u\x7b" ++ Digits.hex c.toNat ++ "\x7d"

def quote (s : String) : String := "\"" ++ String.join (s.toList.map escape) ++ "\""

end SectionArchive.Quoted
