import Lexing.Scan.Number
import Lexing.Scan.Punctuation
import Lexing.Scan.Word

/-!
# The next lexeme

The first character ahead decides which scan is made, after a minus sign the second one too. A scan
that succeeds takes at least one character.
-/

namespace Lexing.Scan

/-- A minus sign begins an arrow, a number or an operator. -/
def minus (options : Options) (rest : List Char) : Scan Lexeme :=
  match rest.head? with
  | some '>' => punctuation '-' rest
  | some second =>
    if isDigit second || second == '.' then number options ('-' :: rest) else operator ('-' :: rest)
  | none => operator ('-' :: rest)

/-- The scan that the character `c` asks for; a comment yields no lexeme. -/
def next (options : Options) (c : Char) (rest : List Char) : Scan (Option Lexeme) :=
  let text := c :: rest
  if isWordStart c then (word text).map some
  else if c = '-' then (minus options rest).map some
  else if isOperatorChar c then (operator text).map some
  else if isDigit c then (number options text).map some
  else if c = '"' then (string text).map some
  else if isLineTerminator c then (endOfLine options.loneCr text).map some
  else if c = '#' then comment options.loneCr text
  else (punctuation c rest).map some

theorem minus_covers (options : Options) (rest : List Char) :
    (minus options rest).Covers ('-' :: rest) := by
  unfold minus
  split
  · exact punctuation_covers _ _
  · split
    · exact number_covers _ _
    · exact operator_covers _
  · exact operator_covers _

theorem next_covers (options : Options) (c : Char) (rest : List Char) :
    (next options c rest).Covers (c :: rest) := by
  simp only [next]
  split
  · exact word_covers _
  split
  · rename_i minus
    subst minus
    exact minus_covers _ _
  split
  · exact operator_covers _
  split
  · exact number_covers _ _
  split
  · exact string_covers _
  split
  · exact endOfLine_covers _ _
  split
  · exact comment_covers _ _
  · exact punctuation_covers _ _

theorem minus_taken_ne_nil {options : Options} {rest : List Char} {lexeme : Lexeme} :
    (minus options rest).outcome = .ok lexeme → (minus options rest).taken ≠ [] := by
  unfold minus
  split
  · exact punctuation_taken_ne_nil
  · split
    · exact fun _ => number_taken_ne_nil _ _ (.inl rfl)
    · exact fun _ => operator_taken_ne_nil _ _
  · exact fun _ => operator_taken_ne_nil _ _

theorem next_taken_ne_nil {options : Options} {c : Char} {rest : List Char}
    {lexeme? : Option Lexeme} :
    (next options c rest).outcome = .ok lexeme? → (next options c rest).taken ≠ [] := by
  simp only [next]
  split
  · exact fun _ => word_taken_ne_nil ‹_› _
  split
  · exact fun h => minus_taken_ne_nil (map_eq_ok h).choose_spec.1
  split
  · exact fun _ => operator_taken_ne_nil _ _
  split
  · exact fun _ => number_taken_ne_nil _ _ (.inr ‹_›)
  split
  · exact fun _ => string_taken_ne_nil _ _
  split
  · exact fun h => endOfLine_taken_ne_nil (map_eq_ok h).choose_spec.1
  split
  · exact fun _ => comment_taken_ne_nil _ _ _
  · exact fun h => punctuation_taken_ne_nil (map_eq_ok h).choose_spec.1

/-- A scan that succeeds leaves less than there was. -/
theorem length_rest_next {options : Options} {c : Char} {rest : List Char}
    {lexeme? : Option Lexeme} (h : (next options c rest).outcome = .ok lexeme?) :
    (next options c rest).rest.length < rest.length + 1 :=
  (next_covers options c rest).length_rest (next_taken_ne_nil h)

end Lexing.Scan
