import Lexing.Numeral.Digit
import Lexing.Text.Whitespace

/-!
# Integers as text

Reading a signed decimal numeral the way a setting may spell it: blanks around it, one sign directly
before the digits, digits of any script, and single underscores between digits. Numerals of more
than `digitLimit` digits are refused, whatever their value.
-/

namespace Lexing.Numeral

/-- The most digits that a numeral may have; leading zeros count. -/
def digitLimit : Nat := 4300

/-- Values of the digits of a numeral. An underscore stands only between two digits. -/
def digitValues? : List Char → Option (List Nat)
  | [] => none
  | c :: rest =>
    match digitValue? c, rest with
    | none, _ => none
    | some d, [] => some [d]
    | some d, '_' :: more => (digitValues? more).map (d :: ·)
    | some d, more => (digitValues? more).map (d :: ·)

def ofDigits (digits : List Nat) : Nat :=
  digits.foldl (fun n d => n * 10 + d) 0

def readNatural? (text : List Char) : Option Nat :=
  match digitValues? text with
  | some digits => if digits.length ≤ digitLimit then some (ofDigits digits) else none
  | none => none

/-- Value of a signed numeral, blanks around it set aside. -/
def readInteger? (text : List Char) : Option Int :=
  match Text.trim Text.isNumeralBlank text with
  | '-' :: digits => (readNatural? digits).map fun n => -(n : Int)
  | '+' :: digits => (readNatural? digits).map Int.ofNat
  | digits => (readNatural? digits).map Int.ofNat

def naturalText (n : Nat) : List Char :=
  Nat.toDigits 10 n

/-- Decimal digits of an integer, after a minus sign if it is negative. -/
def integerText : Int → List Char
  | .ofNat n => naturalText n
  | .negSucc n => '-' :: naturalText (n + 1)

end Lexing.Numeral
