/-!
Comparing a given name with a fixed lower-case ASCII name, without regard to letter case. Beside
the ASCII capitals the only character whose lower case is an ASCII letter is the Kelvin sign, so
`lower` decides every such comparison as full Unicode lower-casing would.
-/

namespace SectionArchive.LetterCase

/-- Lower case, as far as the result can be an ASCII letter. -/
def lower (c : Char) : Char :=
  if c = '\u212a' then 'k' else c.toLower

def matchesName (given name : String) : Bool :=
  given.toList.map lower == name.toList

def matchesAscii (given name : String) : Bool :=
  given.toList.map Char.toLower == name.toList.map Char.toLower

end SectionArchive.LetterCase
