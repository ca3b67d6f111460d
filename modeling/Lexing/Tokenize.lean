import Lexing.Cursor
import Lexing.Split

/-!
# Token lists

The token list of a text holds its lexemes at their places and ends with one token for the end of
input. A text that cannot be split to its end has a diagnostic in place of a token list.
-/

namespace Lexing

namespace Cursor

def location (options : Options) (cursor : Cursor) : Location :=
  ⟨options.filename, cursor.position.line, cursor.position.column⟩

/-- A lexeme as the token at a cursor in a text. -/
def token (options : Options) (source : List Char) (cursor : Cursor) (lexeme : Lexeme) : Token :=
  { lexeme with
    line := cursor.position.line
    column := cursor.position.column
    offset := cursor.position.offset
    filename := options.filename
    source }

def diagnose (options : Options) (cursor : Cursor) (fault : Fault) : Diagnostic :=
  fault.diagnose options (cursor.location options) (cursor.currentLine options.loneCr)

def pass (loneCr : Bool) (cursor : Cursor) (piece : Piece) : Cursor :=
  cursor.skip loneCr piece.text.length

/-- The tokens of pieces that follow one another from a cursor on, and the end of input. -/
def layOut (options : Options) (source : List Char) (cursor : Cursor) : List Piece → List Token
  | [] => [cursor.token options source { kind := .endOfInput, text := [] }]
  | piece :: pieces =>
    let later := (cursor.pass options.loneCr piece).layOut options source pieces
    match piece with
    | .lexeme found => cursor.token options source found :: later
    | _ => later

/-- The tokens from a cursor to the end of its text, and the cursor where the work ended. -/
def tokenize (options : Options) (cursor : Cursor) : Except Diagnostic (List Token) × Cursor :=
  let split := Split.ofText options cursor.ahead
  let reached := split.pieces.foldl (pass options.loneCr) cursor
  match split.stop with
  | none => (.ok (cursor.layOut options cursor.source split.pieces), reached)
  | some stop =>
    (.error (reached.diagnose options stop.fault), reached.skip options.loneCr stop.taken.length)

end Cursor

/-- The token list of a text. -/
def tokenize (options : Options) (source : List Char) : Except Diagnostic (List Token) :=
  ((Cursor.start source).tokenize options).1

/-- What the log says of a run over a text: how much was found, or what was wrong and where. -/
def logLine (options : Options) : Except Diagnostic (List Token) → String
  | .ok tokens =>
    let lines := (tokens.getLast?.map fun token => token.line).getD 1
    s!"Tokenized {options.filename}: {tokens.length} tokens, {lines} lines"
  | .error d =>
    let place := (d.location.map fun location => String.ofList location.text).getD options.filename
    s!"{place}: lexical error: {d.message}"

end Lexing
