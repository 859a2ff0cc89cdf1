/-! # Letter case -/

namespace MapCatalog

namespace Text

/-- Equality up to the case of the letters `a` to `z`. -/
def sameLetters (left right : String) : Bool :=
  left.toList.map Char.toLower == right.toList.map Char.toLower

end Text

end MapCatalog
