/-!
# The line around an offset

A line feed always ends a line, with a carriage return before it or without. A carriage return on
its own ends a line only under the lenient rule.
-/

namespace Lexing.Text

/-- The characters at which the search for a line's ends stops. -/
def stopsLine (loneCr : Bool) (c : Char) : Bool :=
  c == '\n' || (loneCr && c == '\r')

/-- The end of a text after its last stopping character. -/
def lastRun (stops : Char → Bool) (text : List Char) : List Char :=
  (text.reverse.takeWhile fun c => !stops c).reverse

/--
The line that holds an offset, without its terminator. An offset outside the text means its nearer
end. Under the strict rule a carriage return right before the line feed belongs to the terminator.
-/
def lineAt (loneCr : Bool) (source : List Char) (offset : Int) : List Char :=
  let stops := stopsLine loneCr
  let ahead := source.drop offset.toNat
  let line := lastRun stops (source.take offset.toNat) ++ ahead.takeWhile fun c => !stops c
  if !loneCr && ahead.any stops && line.getLast? == some '\r' then line.dropLast else line

end Lexing.Text
