import Lexing.Token.Basic

/-!
# Diagnostics

A diagnostic says what is wrong with a text and, where it is known, at which place, on which line and
what would mend it. `render` writes it for a reader, with a caret under the place.
-/

namespace Lexing

inductive DiagnosticKind
  | general
  | malformedNumber
  | unrecognizedOperator (spelling : List Char)
  | unterminatedString
  | unrecognizedCharacter (found : List Char)
  deriving DecidableEq, Repr

structure Diagnostic where
  kind : DiagnosticKind := .general
  message : String
  location : Option Location := none
  hint : Option String := none
  sourceLine : Option (List Char) := none
  deriving DecidableEq, Repr

namespace Diagnostic

/-- An operator spelling that is not reserved. Doubling mends a single bar or ampersand. -/
def unrecognizedOperator (spelling : List Char) (location : Option Location)
    (sourceLine : Option (List Char)) : Diagnostic where
  kind := .unrecognizedOperator spelling
  message := "unrecognized operator '" ++ String.ofList spelling ++ "'"
  location
  hint :=
    if spelling = ['|'] ∨ spelling = ['&'] then
      some ("did you mean '" ++ String.ofList (spelling ++ spelling) ++ "'?")
    else none
  sourceLine

def malformedNumber (message : String) (location : Option Location) (hint : Option String)
    (sourceLine : Option (List Char)) : Diagnostic :=
  ⟨.malformedNumber, message, location, hint, sourceLine⟩

def unterminatedString (location : Option Location) (sourceLine : Option (List Char)) :
    Diagnostic where
  kind := .unterminatedString
  message := "unterminated string"
  location
  hint := some "add closing '\"' to complete the string"
  sourceLine

/-- A character's code point in upper-case hexadecimal, at least two digits. -/
def codePointText (c : Char) : String :=
  String.ofList (((Nat.toDigits 16 c.toNat).map Char.toUpper).leftpad 2 '0')

def unrecognizedCharacterMessage (c : Char) : String :=
  "unrecognized character " ++ String.ofList (Text.quote [c]) ++ " (0x" ++ codePointText c ++ ")"

/-- A text that begins no lexeme. A message that is not empty stands in for the usual one. -/
def unrecognizedCharacter (found : List Char) (location : Option Location)
    (sourceLine : Option (List Char)) (hint message : Option String) : Diagnostic where
  kind := .unrecognizedCharacter found
  message :=
    match message.filter (· ≠ ""), found with
    | some message, _ => message
    | none, c :: _ => unrecognizedCharacterMessage c
    | none, [] => "unrecognized character"
  location
  hint
  sourceLine

/-- A diagnostic about a token, for those who read the token list. -/
def ofToken (kind : DiagnosticKind) (token : Token) (message : String) (hint : Option String) :
    Diagnostic :=
  ⟨kind, message, some token.location, hint, some token.sourceLine⟩

def header (d : Diagnostic) : String :=
  match d.location with
  | some location => String.ofList location.text ++ ": error: " ++ d.message
  | none => "error: " ++ d.message

/-- The line and, if the column is positive, a caret under that column. -/
def excerpt (line : List Char) (column : Int) : List String :=
  let shown := "    " ++ String.ofList line
  if 0 < column then
    [shown, String.ofList (List.replicate (4 + column.toNat - 1) ' ' ++ ['^'])]
  else [shown]

/-- An empty hint is not shown. -/
def hintLines (hint : Option String) : List String :=
  match hint with
  | some hint => if hint = "" then [] else ["hint: " ++ hint]
  | none => []

/-- The excerpt is shown only if both the line and the place are known. -/
def excerptLines (d : Diagnostic) : List String :=
  match d.sourceLine, d.location with
  | some line, some location => excerpt line location.column
  | _, _ => []

def render (d : Diagnostic) : String :=
  "\n".intercalate (d.header :: (d.excerptLines ++ hintLines d.hint))

end Diagnostic

end Lexing
