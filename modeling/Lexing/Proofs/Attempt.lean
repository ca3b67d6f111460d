import Lexing.Proofs.Dispatch
import Lexing.Proofs.Scan

/-!
# Scans over partial operations

A scan makes use of operations that are not defined on every text: the kind of a reserved spelling, the
number that a numeral stands for, the code point of a character. `attempt` is the scan of the next
lexeme with these operations left undefined wherever they need not be defined, and it never gets to a
text on which they are not. Only at the end of a text, where no lexeme begins, it would.
-/

namespace Lexing

/-- An operation on a text on which it is not defined. -/
inductive Undefined
  | kind (spelling : List Char)
  | integer (text : List Char)
  | float (text : List Char)
  | codePoint (text : List Char)
  deriving DecidableEq

namespace Scan

/-- The kind of a reserved spelling. -/
def kindOf (spelling : List Char) : Except Undefined TokenKind :=
  match reservedKind? spelling with
  | some kind => .ok kind
  | none => .error (.kind spelling)

/-- The value of digits with or without a sign, if they are not too many. -/
def integerOf (text : List Char) : Except Undefined (Option Int) :=
  let (sign, digits) := minusSign text
  if Digits digits then
    .ok (if Numeral.digitLimit < digits.length then none else some (signedValue sign digits))
  else .error (.integer text)

/-- The finite number nearest to digits around a point, with or without a sign, if there is one. -/
def floatOf (text : List Char) : Except Undefined (Option Numeral.Binary64) :=
  let (sign, unsigned) := minusSign text
  let digits := unsigned.takeWhile isDigit
  match unsigned.dropWhile isDigit with
  | '.' :: fraction =>
    if Digits digits ∧ Digits fraction then
      .ok (Numeral.Binary64.ofDecimal? (sign != [])
        (Nat.ofDigitChars 10 (digits ++ fraction) 0) (-fraction.length))
    else .error (.float text)
  | _ => .error (.float text)

/-- The code point of a text of one character. -/
def codePointOf : List Char → Except Undefined Nat
  | [c] => .ok c.toNat
  | text => .error (.codePoint text)

/-- The scan of a number, which reads the text that it has taken. -/
def attemptNumber (options : Options) (text : List Char) : Except Undefined (Scan Lexeme) :=
  let (sign, unsigned) := minusSign text
  let digits := unsigned.takeWhile isDigit
  match unsigned.dropWhile isDigit with
  | '.' :: rest =>
    let fraction := rest.takeWhile isDigit
    if fraction = [] then .ok ⟨sign ++ digits, '.' :: rest, .error .trailingDot⟩
    else if digits = [] then .ok ⟨sign ++ digits, '.' :: rest, .error .leadingDot⟩
    else
      let taken := sign ++ digits ++ '.' :: fraction
      (floatOf taken).map fun value? =>
        ⟨taken, rest.dropWhile isDigit,
          match value? with
          | none => .error (.floatOutOfRange taken)
          | some value => .ok { kind := .floatLiteral, text := taken, floatValue := some value }⟩
  | rest =>
    let taken := sign ++ digits
    (integerOf taken).map fun value? =>
      ⟨taken, rest,
        match value? with
        | none => .error (.malformedInteger taken)
        | some value =>
          if options.intMin ≤ value ∧ value ≤ options.intMax then
            .ok { kind := .intLiteral, text := taken, intValue := some value }
          else .error (.integerOutOfRange taken)⟩

/-- The scan of punctuation. At the end of a text the character ahead is an empty text, which is within
any other one. -/
def attemptPunctuation (text : List Char) : Except Undefined (Scan Lexeme) :=
  let found := text.take 1
  if found <:+: ['(', ')', '\x7b', '\x7d'] then
    (kindOf found).map fun kind => plain kind found (text.drop 1)
  else
    match text with
    | '@' :: rest => .ok (plain .typeSignature ['@'] rest)
    | ':' :: ':' :: rest => .ok (plain .paramIndicator [':', ':'] rest)
    | ':' :: rest => (codePointOf found).map fun _ => refuse .loneColon (':' :: rest)
    | '-' :: '>' :: rest => .ok (plain .leftArrow ['-', '>'] rest)
    | text => (codePointOf found).map fun n => refuse (.unrecognizedCharacter (Char.ofNat n)) text

def attemptMinus (options : Options) (rest : List Char) : Except Undefined (Scan Lexeme) :=
  match rest.head? with
  | some '>' => attemptPunctuation ('-' :: rest)
  | some second =>
    if isDigit second || second == '.' then attemptNumber options ('-' :: rest)
    else .ok (operator ('-' :: rest))
  | none => .ok (operator ('-' :: rest))

/-- The scan of the next lexeme, whatever is ahead. -/
def attempt (options : Options) (text : List Char) : Except Undefined (Scan (Option Lexeme)) :=
  match text with
  | [] => (attemptPunctuation []).map (Scan.map some)
  | c :: rest =>
    if isWordStart c then .ok ((word text).map some)
    else if c = '-' then (attemptMinus options rest).map (Scan.map some)
    else if isOperatorChar c then .ok ((operator text).map some)
    else if isDigit c then (attemptNumber options text).map (Scan.map some)
    else if c = '"' then .ok ((string text).map some)
    else if isLineTerminator c then .ok ((endOfLine options.loneCr text).map some)
    else if c = '#' then .ok (comment options.loneCr text)
    else (attemptPunctuation text).map (Scan.map some)

section Numbers

variable (options : Options) {sign digits fraction : List Char}

theorem integerOf_digits (hs : Sign sign) (hd : Digits digits) : integerOf (sign ++ digits) =
    .ok (if Numeral.digitLimit < digits.length then none else some (signedValue sign digits)) := by
  have hsign := minusSign_digits hs hd []
  rw [List.append_nil] at hsign
  simp only [integerOf, hsign, if_pos hd]

theorem floatOf_digits (hs : Sign sign) (hd : Digits digits) (hf : Digits fraction) :
    floatOf (sign ++ digits ++ '.' :: fraction) =
      .ok (Numeral.Binary64.ofDecimal? (sign != [])
        (Nat.ofDigitChars 10 (digits ++ fraction) 0) (-fraction.length)) := by
  have hsign := minusSign_digits hs hd ('.' :: fraction)
  have hpoint := endsRun_point fraction
  simp only [floatOf, List.append_assoc, hsign, takeWhile_run hd.forall_isDigit hpoint,
    dropWhile_run hd.forall_isDigit hpoint, hd, hf, and_self, if_true]

/-- Digits are read as the number that they stand for, whatever follows them. -/
theorem attemptNumber_digits (hs : Sign sign) (hd : Digits digits) {rest : List Char}
    (hr : EndsRun isDigit rest.head?) : attemptNumber options (sign ++ (digits ++ rest)) =
      .ok (number options (sign ++ (digits ++ rest))) := by
  have hsign := minusSign_digits hs hd rest
  simp only [attemptNumber, number, hsign, takeWhile_run hd.forall_isDigit hr,
    dropWhile_run hd.forall_isDigit hr]
  split
  · rename_i after
    by_cases hfraction : after.takeWhile isDigit = []
    · simp [hfraction]
    · have hf : Digits (after.takeWhile isDigit) :=
        ⟨hfraction, fun d hmem => isDigit_iff.mp (List.mem_takeWhile_imp hmem)⟩
      simp only [if_neg hfraction, if_neg hd.1, floatOf_digits hs hd hf, floatLiteral]
      generalize Numeral.Binary64.ofDecimal? _ _ _ = value?
      cases value? <;> rfl
  · rw [integerOf_digits hs hd, intLiteral_eq options sign hd.1]
    by_cases hlong : Numeral.digitLimit < digits.length
    · simp [hlong, Except.map]
    · simp [hlong, Except.map]

/-- Behind a sign without digits no number is read. -/
theorem attemptNumber_minus_point (rest : List Char) :
    attemptNumber options ('-' :: '.' :: rest) = .ok (number options ('-' :: '.' :: rest)) := by
  have htake := takeWhile_of_endsRun (endsRun_point rest)
  have hdrop := dropWhile_of_endsRun (endsRun_point rest)
  by_cases hf : rest.takeWhile isDigit = []
  · simp [attemptNumber, number, minusSign, htake, hdrop, hf]
  · simp [attemptNumber, number, minusSign, htake, hdrop, hf]

end Numbers

/-- Every bracket has a kind. -/
theorem attemptPunctuation_eq (c : Char) (rest : List Char) :
    attemptPunctuation (c :: rest) = .ok (punctuation c rest) := by
  have hbracket : (c :: rest).take 1 <:+: ['(', ')', '\x7b', '\x7d'] ↔
      c ∈ ['(', ')', '\x7b', '\x7d'] := List.singleton_infix_iff ..
  have hcode : codePointOf ((c :: rest).take 1) = .ok c.toNat := rfl
  by_cases hc : c ∈ ['(', ')', '\x7b', '\x7d']
  · simp only [attemptPunctuation, if_pos (hbracket.mpr hc)]
    simp only [List.mem_cons, List.not_mem_nil, or_false] at hc
    rcases hc with rfl | rfl | rfl | rfl <;> rfl
  · simp only [attemptPunctuation, if_neg (hbracket.not.mpr hc), hcode]
    have hkind := bracketKind?_eq_none_iff.mpr hc
    unfold punctuation
    split <;> simp_all [Except.map]

theorem attemptMinus_eq (options : Options) (rest : List Char) :
    attemptMinus options rest = .ok (minus options rest) := by
  cases rest with
  | nil => rfl
  | cons d rest =>
    by_cases harrow : d = '>'
    · subst harrow
      exact attemptPunctuation_eq '-' ('>' :: rest)
    by_cases hdigit : isDigit d = true
    · obtain ⟨digits, after, he, hdigits, hr⟩ := exists_digits hdigit rest
      have hnumber := attemptNumber_digits options (.inr rfl) hdigits hr
      rw [← he] at hnumber
      simpa [attemptMinus, minus, harrow, hdigit] using hnumber
    by_cases hpoint : d = '.'
    · subst hpoint
      exact attemptNumber_minus_point options rest
    · simp [attemptMinus, minus, hdigit, hpoint]

/-- Ahead of a character no scan gets to an undefined operation, and each comes to what it comes to. -/
theorem attempt_eq (options : Options) (c : Char) (rest : List Char) :
    attempt options (c :: rest) = .ok (next options c rest) := by
  have hnumber (hdigit : isDigit c = true) :
      attemptNumber options (c :: rest) = .ok (number options (c :: rest)) := by
    obtain ⟨digits, after, he, hdigits, hr⟩ := exists_digits hdigit rest
    rw [he]
    exact attemptNumber_digits options (.inl rfl) hdigits hr
  simp only [attempt, next, attemptMinus_eq, attemptPunctuation_eq, Except.map]
  split_ifs with _ _ _ hdigit
  any_goals rfl
  rw [hnumber hdigit]

/-- At the end of a text the scan would look for the kind of no character at all. -/
example (options : Options) : attempt options [] = .error (.kind []) := rfl

end Scan

end Lexing
