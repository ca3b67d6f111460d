import Lexing.Position
import Lexing.Text.Line

/-!
# Cursors

A cursor stands between two characters of a text. It holds what lies behind it, nearest first, what
lies ahead of it, and its position, which `advance` keeps up to date.
-/

namespace Lexing

structure Cursor where
  behind : List Char
  ahead : List Char
  position : Position
  deriving DecidableEq, Repr

namespace Cursor

def start (source : List Char) : Cursor :=
  ⟨[], source, .start⟩

def source (cursor : Cursor) : List Char :=
  cursor.behind.reverse ++ cursor.ahead

/-- The character at a distance from the cursor, zero for the next one and negative for those behind. -/
def peek (cursor : Cursor) : Int → Option Char
  | .ofNat n => cursor.ahead[n]?
  | .negSucc n => cursor.behind[n]?

/-- Moves past one character. At the end of the text the cursor stays. -/
def advance (loneCr : Bool) (cursor : Cursor) : Cursor :=
  match cursor.ahead with
  | [] => cursor
  | c :: ahead => ⟨c :: cursor.behind, ahead, cursor.position.after loneCr c ahead.head?⟩

def skip (loneCr : Bool) (cursor : Cursor) : Nat → Cursor
  | 0 => cursor
  | n + 1 => (cursor.advance loneCr).skip loneCr n

def currentLine (loneCr : Bool) (cursor : Cursor) : List Char :=
  Text.lineAt loneCr cursor.source cursor.position.offset

end Cursor

end Lexing
