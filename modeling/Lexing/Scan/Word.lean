import Lexing.Alphabet
import Lexing.Scan.Basic

/-!
# Words, operators and strings

A word goes as far as its characters do. An operator takes a second character if that is an equals
sign or doubles a bar or an ampersand. A string goes up to the next double quote, over line ends.
-/

namespace Lexing.Scan

/-- The longest run of word characters. Reserved words have a kind of their own. -/
def word (text : List Char) : Scan Lexeme :=
  let spelling := text.takeWhile isWordChar
  plain ((reservedKind? spelling).getD .identifier) spelling (text.dropWhile isWordChar)

/-- Whether an operator goes on with the character after its first. -/
def joins (first second : Char) : Bool :=
  second == '=' || (second == first && (first == '|' || first == '&'))

/-- Splits an operator off a text, known or not. -/
def operatorSpelling : List Char → List Char × List Char
  | first :: second :: rest =>
    if joins first second then ([first, second], rest) else ([first], second :: rest)
  | text => (text, [])

/-- A spelling that is not reserved is not cut into smaller operators. -/
def operator (text : List Char) : Scan Lexeme :=
  let (spelling, rest) := operatorSpelling text
  match reservedKind? spelling with
  | some kind => plain kind spelling rest
  | none => ⟨spelling, rest, .error (.unrecognizedOperator spelling)⟩

/-- The first character is taken unseen, as the opening quote. -/
def string : List Char → Scan Lexeme
  | [] => ⟨[], [], .error .unterminatedString⟩
  | opening :: text =>
    let body := text.takeWhile (· != '"')
    match text.dropWhile (· != '"') with
    | [] => ⟨opening :: body, [], .error .unterminatedString⟩
    | closing :: rest => plain .stringLiteral (opening :: (body ++ [closing])) rest

theorem word_covers (text : List Char) : (word text).Covers text :=
  List.takeWhile_append_dropWhile

theorem operatorSpelling_append (text : List Char) :
    (operatorSpelling text).1 ++ (operatorSpelling text).2 = text := by
  unfold operatorSpelling
  split
  · split <;> rfl
  · simp

theorem operator_covers (text : List Char) : (operator text).Covers text := by
  have whole := operatorSpelling_append text
  simp only [operator]
  split <;> exact whole

theorem string_covers (text : List Char) : (string text).Covers text := by
  unfold string
  split
  · rfl
  · rename_i opening text
    have whole := List.takeWhile_append_dropWhile (p := (· != '"')) (l := text)
    split
    · rename_i ahead
      rw [ahead, List.append_nil] at whole
      simp [Covers, whole]
    · rename_i ahead
      rw [ahead] at whole
      simp [whole]

theorem word_taken_ne_nil {c : Char} (h : isWordStart c = true) (rest : List Char) :
    (word (c :: rest)).taken ≠ [] := by
  have wordChar : isWordChar c = true := by
    simp only [isWordStart, isWordChar, Char.isAlphanum, Bool.or_eq_true] at h ⊢
    exact h.imp_left Or.inl
  simp [word, plain, wordChar]

theorem operator_taken_ne_nil (c : Char) (rest : List Char) :
    (operator (c :: rest)).taken ≠ [] := by
  have spelled : (operatorSpelling (c :: rest)).1 ≠ [] := by
    unfold operatorSpelling
    split
    · split <;> exact List.cons_ne_nil _ _
    · exact List.cons_ne_nil _ _
  simp only [operator]
  split <;> exact spelled

theorem string_taken_ne_nil (c : Char) (rest : List Char) : (string (c :: rest)).taken ≠ [] := by
  simp only [string]
  split <;> exact List.cons_ne_nil _ _

end Lexing.Scan
