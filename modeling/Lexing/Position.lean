/-!
# Positions

A position counts the characters before it and says on which line and at which column it stands.
Passing a line feed starts a new line, with a carriage return before it or without. Passing any
other carriage return starts one only under the lenient rule.
-/

namespace Lexing

/-- Offsets count from zero, lines and columns from one. -/
structure Position where
  offset : Nat
  line : Nat
  column : Nat
  deriving DecidableEq, Repr

namespace Position

def start : Position := ⟨0, 1, 1⟩

/-- Whether a line ends with the character `c`, given the character that follows it. -/
def endsLine (loneCr : Bool) (c : Char) (next : Option Char) : Bool :=
  c == '\n' || (c == '\r' && next != some '\n' && loneCr)

def after (loneCr : Bool) (position : Position) (c : Char) (next : Option Char) : Position :=
  if endsLine loneCr c next then ⟨position.offset + 1, position.line + 1, 1⟩
  else ⟨position.offset + 1, position.line, position.column + 1⟩

end Position

end Lexing
