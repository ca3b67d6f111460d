import Lexing.Scan.Next

/-!
# Splitting a text

A text is split from the left into blanks, comments and lexemes, without regard to positions. The
split ends with the text or at the first scan that fails.
-/

namespace Lexing

inductive Piece
  | blank (c : Char)
  | comment (text : List Char)
  | lexeme (found : Lexeme)
  deriving DecidableEq

def Piece.text : Piece → List Char
  | .blank c => [c]
  | .comment text => text
  | .lexeme found => found.text

/-- What a scan took, as a piece. A scan without a lexeme took a comment. -/
def Piece.ofScan (taken : List Char) : Option Lexeme → Piece
  | some found => .lexeme found
  | none => .comment taken

/-- A failed scan: its fault, what it took, and what it left. -/
structure Stop where
  fault : Fault
  taken : List Char
  rest : List Char
  deriving DecidableEq

structure Split where
  pieces : List Piece
  stop : Option Stop
  deriving DecidableEq

namespace Split

def cons (piece : Piece) (split : Split) : Split :=
  ⟨piece :: split.pieces, split.stop⟩

def ofText (options : Options) : List Char → Split
  | [] => ⟨[], none⟩
  | c :: text =>
    if isBlank c then (ofText options text).cons (.blank c)
    else
      let scan := Scan.next options c text
      match _h : scan.outcome with
      | .ok lexeme? => (ofText options scan.rest).cons (.ofScan scan.taken lexeme?)
      | .error fault => ⟨[], some ⟨fault, scan.taken, scan.rest⟩⟩
termination_by text => text.length
decreasing_by
  · simp only [List.length_cons]; omega
  · exact Scan.length_rest_next _h

def text (split : Split) : List Char :=
  split.pieces.flatMap Piece.text

def lexemes (split : Split) : List Lexeme :=
  split.pieces.filterMap fun
    | .lexeme found => some found
    | _ => none

end Split

end Lexing
