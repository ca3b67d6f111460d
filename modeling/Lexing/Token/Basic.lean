import Lexing.Location
import Lexing.Numeral.Shortest
import Lexing.Text.Line
import Lexing.Text.Quoted
import Lexing.Token.Kind

/-!
# Lexemes and tokens

A lexeme is a classified piece of text with the number it denotes, if any. A token is a lexeme at
its place in a named text, which it carries along for diagnostics.
-/

namespace Lexing

structure Lexeme where
  kind : TokenKind
  text : List Char
  intValue : Option Int := none
  floatValue : Option Numeral.Binary64 := none
  deriving DecidableEq

/-- Equality of lexemes, numbers being compared by value. -/
def Lexeme.sameAs (a b : Lexeme) : Bool :=
  a.kind == b.kind && a.text == b.text && a.intValue == b.intValue &&
    match a.floatValue, b.floatValue with
    | some x, some y => x.sameValue y
    | none, none => true
    | _, _ => false

/-- Lines and columns count from one, offsets from zero. -/
structure Token extends Lexeme where
  line : Int
  column : Int
  offset : Int := 0
  filename : String := "<input>"
  source : List Char := []
  deriving DecidableEq

/-- What a token stands for: its number on a number literal, its text otherwise. -/
inductive Value
  | integer (value : Option Int)
  | real (value : Option Numeral.Binary64)
  | text (value : List Char)

def Value.shown : Value → List Char
  | .integer value => value.elim ['N', 'o', 'n', 'e'] Numeral.integerText
  | .real value => value.elim ['N', 'o', 'n', 'e'] Numeral.Binary64.text
  | .text value => Text.quote value

def Lexeme.value (lexeme : Lexeme) : Value :=
  match lexeme.kind with
  | .intLiteral => .integer lexeme.intValue
  | .floatLiteral => .real lexeme.floatValue
  | _ => .text lexeme.text

namespace Token

/-- Equality of tokens, the texts that they come from left aside. -/
def sameAs (a b : Token) : Bool :=
  a.toLexeme.sameAs b.toLexeme && a.line == b.line && a.column == b.column &&
    a.offset == b.offset && a.filename == b.filename

def location (token : Token) : Location :=
  ⟨token.filename, token.line, token.column⟩

/-- The line that a token starts on, a lone carriage return ending a line. -/
def sourceLine (token : Token) : List Char :=
  Text.lineAt true token.source token.offset

/-- A token for display; the two structural kinds show no value. -/
def describe (token : Token) : String :=
  let place := String.ofList (placeText token.line token.column)
  match token.kind with
  | .endOfLine | .endOfInput => s!"Token({token.kind.name}, {place})"
  | kind => s!"Token({kind.name}, " ++ String.ofList token.value.shown ++ s!", {place})"

end Token

end Lexing
