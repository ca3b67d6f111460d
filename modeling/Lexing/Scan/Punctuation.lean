import Lexing.Alphabet
import Lexing.Scan.Basic

/-!
# Punctuation, line ends and comments

Brackets, the type mark, the double colon and the arrow; the ends of lines, which are lexemes; and
comments, which are not, and which take the end of their line with them.
-/

namespace Lexing.Scan

def bracketKind? (c : Char) : Option TokenKind :=
  if ['(', ')', '\x7b', '\x7d'].contains c then reservedKind? [c] else none

/-- Punctuation that begins with `c`. What begins no lexeme at all is refused here. -/
def punctuation (c : Char) (rest : List Char) : Scan Lexeme :=
  match c, rest with
  | '@', _ => plain .typeSignature ['@'] rest
  | ':', ':' :: rest => plain .paramIndicator [':', ':'] rest
  | ':', _ => refuse .loneColon (':' :: rest)
  | '-', '>' :: rest => plain .leftArrow ['-', '>'] rest
  | c, rest =>
    match bracketKind? c with
    | some kind => plain kind [c] rest
    | none => refuse (.unrecognizedCharacter c) (c :: rest)

/--
A pair of carriage return and line feed is one line end. Under the lenient rule any other character
is taken for one unseen.
-/
def endOfLine (loneCr : Bool) (text : List Char) : Scan Lexeme :=
  match text with
  | '\r' :: '\n' :: rest => plain .endOfLine ['\r', '\n'] rest
  | text =>
    if loneCr || text.head? == some '\n' then plain .endOfLine (text.take 1) (text.drop 1)
    else refuse (.strayReturn (text.take 1)) text

/-- Splits a line end off a text. A lone carriage return is one under the lenient rule only. -/
def lineEnd (loneCr : Bool) : List Char → List Char × List Char
  | '\n' :: rest => (['\n'], rest)
  | '\r' :: '\n' :: rest => (['\r', '\n'], rest)
  | '\r' :: rest => if loneCr then (['\r'], rest) else ([], '\r' :: rest)
  | rest => ([], rest)

/-- The first character is taken unseen, then all of the line and its end. No lexeme results. -/
def comment (loneCr : Bool) (text : List Char) : Scan (Option Lexeme) :=
  let body := (text.drop 1).takeWhile fun c => !isLineTerminator c
  let (ending, rest) := lineEnd loneCr ((text.drop 1).dropWhile fun c => !isLineTerminator c)
  ⟨text.take 1 ++ body ++ ending, rest, .ok none⟩

theorem punctuation_covers (c : Char) (rest : List Char) :
    (punctuation c rest).Covers (c :: rest) := by
  unfold punctuation
  split
  · rfl
  · rfl
  · exact covers_refuse _ _
  · rfl
  · split
    · rfl
    · exact covers_refuse _ _

theorem endOfLine_covers (loneCr : Bool) (text : List Char) :
    (endOfLine loneCr text).Covers text := by
  unfold endOfLine
  split
  · rfl
  · split
    · exact List.take_append_drop 1 _
    · exact covers_refuse _ _

theorem lineEnd_append (loneCr : Bool) (text : List Char) :
    (lineEnd loneCr text).1 ++ (lineEnd loneCr text).2 = text := by
  unfold lineEnd
  split
  · rfl
  · rfl
  · split <;> rfl
  · rfl

theorem comment_covers (loneCr : Bool) (text : List Char) :
    (comment loneCr text).Covers text := by
  simp only [comment, Covers, List.append_assoc, lineEnd_append,
    List.takeWhile_append_dropWhile, List.take_append_drop]

theorem punctuation_taken_ne_nil {c : Char} {rest : List Char} {lexeme : Lexeme}
    (h : (punctuation c rest).outcome = .ok lexeme) : (punctuation c rest).taken ≠ [] := by
  unfold punctuation at h ⊢
  split
  · exact List.cons_ne_nil _ _
  · exact List.cons_ne_nil _ _
  · simp [refuse] at h
  · exact List.cons_ne_nil _ _
  · split
    · exact List.cons_ne_nil _ _
    · simp_all [refuse]

theorem endOfLine_taken_ne_nil {loneCr : Bool} {c : Char} {rest : List Char} {lexeme : Lexeme}
    (h : (endOfLine loneCr (c :: rest)).outcome = .ok lexeme) :
    (endOfLine loneCr (c :: rest)).taken ≠ [] := by
  unfold endOfLine at h ⊢
  split
  · exact List.cons_ne_nil _ _
  · split
    · exact List.cons_ne_nil _ _
    · simp_all [refuse]

theorem comment_taken_ne_nil (loneCr : Bool) (c : Char) (rest : List Char) :
    (comment loneCr (c :: rest)).taken ≠ [] := by
  simp [comment]

end Lexing.Scan
