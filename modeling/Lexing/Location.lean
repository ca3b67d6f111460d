import Lexing.Numeral.Integer

/-!
# Locations

A place in a named text, as it is shown to a reader.
-/

namespace Lexing

structure Location where
  filename : String
  line : Int
  column : Int
  deriving DecidableEq, Repr

def placeText (line column : Int) : List Char :=
  Numeral.integerText line ++ ':' :: Numeral.integerText column

/-- A location, as `filename:line:column`. -/
def Location.text (location : Location) : List Char :=
  location.filename.toList ++ ':' :: placeText location.line location.column

end Lexing
