import Lexing.Tokenize

/-!
# Single steps

What can be asked of a cursor one step at a time, in any order and at any place: a look at the text,
a move, or one of the scans on whatever lies ahead. A step that fails leaves the cursor where the
failing scan left it.
-/

namespace Lexing

inductive Step
  | current
  | peek (distance : Int)
  | advance
  | atEnd
  | skipBlanks
  | skipComment
  | digits
  | next
  | word
  | operator
  | number
  | string
  | punctuation
  | endOfLine
  | tokenize
  deriving DecidableEq, Repr

/-- `unanswered` is the answer of a scan that needs a character ahead and has none. -/
inductive Answer
  | char (found : Option Char)
  | flag (holds : Bool)
  | count (n : Nat)
  | done
  | token (found : Option Token)
  | tokens (found : List Token)
  | failed (d : Diagnostic)
  | unanswered

namespace Cursor

def skipWhile (loneCr : Bool) (p : Char → Bool) (cursor : Cursor) : Cursor :=
  cursor.skip loneCr (cursor.ahead.takeWhile p).length

/-- Turns the outcome of a scan at a cursor into an answer, and moves past what the scan took. -/
def settle (options : Options) (cursor : Cursor) (scan : Scan (Option Lexeme)) : Answer × Cursor :=
  let reached := cursor.skip options.loneCr scan.taken.length
  match scan.outcome with
  | .ok lexeme? => (.token (lexeme?.map (cursor.token options cursor.source)), reached)
  | .error fault => (.failed (cursor.diagnose options fault), reached)

/-- Makes a scan that needs a character ahead. -/
def settleNonempty (options : Options) (cursor : Cursor)
    (scan : Char → List Char → Scan (Option Lexeme)) : Answer × Cursor :=
  match cursor.ahead with
  | [] => (.unanswered, cursor)
  | c :: rest => cursor.settle options (scan c rest)

def perform (options : Options) (cursor : Cursor) : Step → Answer × Cursor
  | .current => (.char (cursor.peek 0), cursor)
  | .peek distance => (.char (cursor.peek distance), cursor)
  | .advance => (.char (cursor.peek 0), cursor.advance options.loneCr)
  | .atEnd => (.flag cursor.ahead.isEmpty, cursor)
  | .skipBlanks => (.done, cursor.skipWhile options.loneCr isBlank)
  | .skipComment =>
    (.done, cursor.skip options.loneCr (Scan.comment options.loneCr cursor.ahead).taken.length)
  | .digits =>
    (.count (cursor.ahead.takeWhile isDigit).length, cursor.skipWhile options.loneCr isDigit)
  | .next => cursor.settleNonempty options (Scan.next options)
  | .word => cursor.settle options ((Scan.word cursor.ahead).map some)
  | .operator => cursor.settle options ((Scan.operator cursor.ahead).map some)
  | .number => cursor.settle options ((Scan.number options cursor.ahead).map some)
  | .string => cursor.settle options ((Scan.string cursor.ahead).map some)
  | .punctuation =>
    cursor.settleNonempty options fun c rest => (Scan.punctuation c rest).map some
  | .endOfLine => cursor.settle options ((Scan.endOfLine options.loneCr cursor.ahead).map some)
  | .tokenize =>
    let (result, reached) := cursor.tokenize options
    (match result with | .ok tokens => .tokens tokens | .error d => .failed d, reached)

/-- Takes steps one after the other, from each cursor to the next. -/
def performAll (options : Options) (cursor : Cursor) : List Step → List (Answer × Cursor)
  | [] => []
  | step :: steps =>
    let (answer, reached) := cursor.perform options step
    (answer, reached) :: reached.performAll options steps

end Cursor

end Lexing
