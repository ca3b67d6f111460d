import Lexing.Numeral.Integer
import Lexing.Numeral.Shortest
import Lexing.Text.Quoted

/-!
# JSON documents

A document is written in ASCII: characters outside the printable ASCII range are escaped by their
UTF-16 units. `compact` writes it on one line, `indented` one item a line.
-/

namespace Lexing

inductive Json
  | null
  | integer (value : Int)
  | real (value : Numeral.Binary64)
  | text (value : List Char)
  | array (items : List Json)
  | object (members : List (String × Json))

namespace Json

def unitEscape (unit : Nat) : List Char :=
  '\\' :: 'u' :: Text.hexadecimal 4 unit

/-- One character between double quotes. -/
def escapeChar (c : Char) : List Char :=
  if c = '"' then ['\\', '"']
  else if c = '\\' then ['\\', '\\']
  else if c = '\n' then ['\\', 'n']
  else if c = '\r' then ['\\', 'r']
  else if c = '\t' then ['\\', 't']
  else if c = '\x08' then ['\\', 'b']
  else if c = '\x0c' then ['\\', 'f']
  else if 0x20 ≤ c.toNat ∧ c.toNat ≤ 0x7E then [c]
  else if c.toNat < 0x10000 then unitEscape c.toNat
  else
    let excess := c.toNat - 0x10000
    unitEscape (0xD800 + excess / 0x400) ++ unitEscape (0xDC00 + excess % 0x400)

def stringText (value : List Char) : List Char :=
  '"' :: (value.flatMap escapeChar ++ ['"'])

/-- What stands before the first item, after each comma and after the last item, by depth. -/
structure Layout where
  first : Nat → List Char
  next : Nat → List Char
  last : Nat → List Char

/-- Everything on one line, with a space after each comma. -/
def oneLine : Layout := ⟨fun _ => [], fun _ => [' '], fun _ => []⟩

/-- A line end and two spaces for each level. -/
def lineBreak (depth : Nat) : List Char :=
  '\n' :: List.replicate (2 * depth) ' '

/-- One item a line. -/
def oneItemPerLine : Layout := ⟨lineBreak, lineBreak, lineBreak⟩

mutual

/-- A value nested `depth` levels deep. -/
def write (layout : Layout) (depth : Nat) : Json → List Char
  | .null => ['n', 'u', 'l', 'l']
  | .integer value => Numeral.integerText value
  | .real value => value.text
  | .text value => stringText value
  | .array [] => ['[', ']']
  | .array (item :: more) =>
    '[' :: (layout.first (depth + 1) ++ write layout (depth + 1) item ++
      writeItems layout (depth + 1) more ++ layout.last depth ++ [']'])
  | .object [] => ['\x7b', '\x7d']
  | .object ((name, item) :: more) =>
    '\x7b' :: (layout.first (depth + 1) ++ stringText name.toList ++ [':', ' '] ++
      write layout (depth + 1) item ++ writeMembers layout (depth + 1) more ++
      layout.last depth ++ ['\x7d'])

def writeItems (layout : Layout) (depth : Nat) : List Json → List Char
  | [] => []
  | item :: more =>
    ',' :: (layout.next depth ++ write layout depth item ++ writeItems layout depth more)

def writeMembers (layout : Layout) (depth : Nat) : List (String × Json) → List Char
  | [] => []
  | (name, item) :: more =>
    ',' :: (layout.next depth ++ stringText name.toList ++ [':', ' '] ++
      write layout depth item ++ writeMembers layout depth more)

end

def compact (document : Json) : List Char :=
  document.write oneLine 0

def indented (document : Json) : List Char :=
  document.write oneItemPerLine 0

end Json

end Lexing
