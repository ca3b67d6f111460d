import Lexing.Alphabet
import Lexing.Scan.Basic

/-!
# Number literals

An optional minus sign, digits, and for a float literal a point between digits. The sign belongs to
the literal. An integer has to fit in the range of the options, a float in the finite numbers.
-/

namespace Lexing.Scan

def minusSign : List Char → List Char × List Char
  | '-' :: text => (['-'], text)
  | text => ([], text)

def signedValue (sign digits : List Char) : Int :=
  let magnitude : Int := Nat.ofDigitChars 10 digits 0
  if sign = [] then magnitude else -magnitude

/-- An integer literal, unless it has no digits, too many of them or too large a value. -/
def intLiteral (options : Options) (sign digits : List Char) : Except Fault Lexeme :=
  let text := sign ++ digits
  let value := signedValue sign digits
  if digits = [] ∨ Numeral.digitLimit < digits.length then .error (.malformedInteger text)
  else if options.intMin ≤ value ∧ value ≤ options.intMax then
    .ok { kind := .intLiteral, text, intValue := some value }
  else .error (.integerOutOfRange text)

/-- A float literal, unless it rounds to no finite number. -/
def floatLiteral (sign digits fraction : List Char) : Except Fault Lexeme :=
  let text := sign ++ digits ++ '.' :: fraction
  let magnitude := Nat.ofDigitChars 10 (digits ++ fraction) 0
  let value? := Numeral.Binary64.ofDecimal? (sign != []) magnitude (-fraction.length)
  value?.elim (.error (.floatOutOfRange text)) fun value =>
    .ok { kind := .floatLiteral, text, floatValue := some value }

/-- A point without digits on both sides is left where it is. -/
def number (options : Options) (text : List Char) : Scan Lexeme :=
  let (sign, unsigned) := minusSign text
  let digits := unsigned.takeWhile isDigit
  match unsigned.dropWhile isDigit with
  | '.' :: rest =>
    let fraction := rest.takeWhile isDigit
    if fraction = [] then ⟨sign ++ digits, '.' :: rest, .error .trailingDot⟩
    else if digits = [] then ⟨sign ++ digits, '.' :: rest, .error .leadingDot⟩
    else
      ⟨sign ++ digits ++ '.' :: fraction, rest.dropWhile isDigit,
        floatLiteral sign digits fraction⟩
  | rest => ⟨sign ++ digits, rest, intLiteral options sign digits⟩

theorem minusSign_append (text : List Char) : (minusSign text).1 ++ (minusSign text).2 = text := by
  unfold minusSign
  split <;> rfl

theorem number_covers (options : Options) (text : List Char) :
    (number options text).Covers text := by
  have whole := minusSign_append text
  have run := List.takeWhile_append_dropWhile (p := isDigit) (l := (minusSign text).2)
  simp only [number]
  split
  · rename_i rest ahead
    have tail := List.takeWhile_append_dropWhile (p := isDigit) (l := rest)
    rw [ahead] at run
    split
    · rw [Covers, List.append_assoc, run, whole]
    · split
      · rw [Covers, List.append_assoc, run, whole]
      · simp only [Covers, List.append_assoc, List.cons_append, tail]
        rw [run, whole]
  · rw [Covers, List.append_assoc, run, whole]

theorem number_taken_ne_nil (options : Options) {c : Char} (rest : List Char)
    (h : c = '-' ∨ isDigit c = true) : (number options (c :: rest)).taken ≠ [] := by
  have begun : (minusSign (c :: rest)).1 ++ (minusSign (c :: rest)).2.takeWhile isDigit ≠ [] := by
    unfold minusSign
    split
    · simp
    · rename_i unsigned
      have digit : isDigit c = true := h.resolve_left fun minus => unsigned rest (by rw [minus])
      simp [digit]
  simp only [number]
  split
  · split
    · exact begun
    · split
      · exact begun
      · exact fun empty => begun (List.append_eq_nil_iff.mp empty).1
  · exact begun

end Lexing.Scan
