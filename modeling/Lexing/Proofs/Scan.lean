import Lexing.Proofs.Grammar
import Lexing.Scan.Number
import Lexing.Scan.Punctuation
import Lexing.Scan.Word

/-!
# What each scan finds

For each scan, what it makes of a text that is cut where the lexeme ends. The cut is stated by what
follows: a run ends before a character of another class, a mark before one that does not join it.
-/

namespace Lexing.Scan

theorem word_run {c : Char} {text rest : List Char} (hc : isWordStart c = true)
    (ht : ∀ d ∈ text, isWordChar d = true) (hr : EndsRun isWordChar rest.head?) :
    word (c :: text ++ rest) = plain (wordKind (c :: text)) (c :: text) rest := by
  have hall : ∀ d ∈ c :: text, isWordChar d = true :=
    List.forall_mem_cons.mpr ⟨isWordChar_of_isWordStart hc, ht⟩
  simp only [word, takeWhile_run hall hr, dropWhile_run hall hr, wordKind_eq hc]

theorem operator_single {c : Char} {rest : List Char} (hj : EndsRun (joins c) rest.head?) :
    operator (c :: rest) =
      (reservedKind? [c]).elim ⟨[c], rest, .error (.unrecognizedOperator [c])⟩
        fun kind => plain kind [c] rest := by
  cases rest with
  | nil =>
    simp only [operator, operatorSpelling]
    cases reservedKind? [c] <;> rfl
  | cons d rest =>
    have hd : joins c d = false := (endsRun_some (joins c) d).mp hj
    simp only [operator, operatorSpelling, hd, Bool.false_eq_true, if_false]
    cases reservedKind? [c] <;> rfl

theorem operator_double {c d : Char} (hj : joins c d = true) (rest : List Char) :
    operator (c :: d :: rest) =
      (reservedKind? [c, d]).elim ⟨[c, d], rest, .error (.unrecognizedOperator [c, d])⟩
        fun kind => plain kind [c, d] rest := by
  simp only [operator, operatorSpelling, hj, if_true]
  cases reservedKind? [c, d] <;> rfl

theorem string_closed {body : List Char} (hb : '"' ∉ body) (rest : List Char) :
    string ('"' :: (body ++ '"' :: rest)) =
      plain .stringLiteral ('"' :: (body ++ ['"'])) rest := by
  have hall : ∀ c ∈ body, (c != '"') = true := by
    intro c hc
    rw [bne_iff_ne]
    rintro rfl
    exact hb hc
  have hr : EndsRun (· != '"') ('"' :: rest).head? := by simp
  simp only [string, takeWhile_run hall hr, dropWhile_run hall hr]

theorem string_open {body : List Char} (hb : '"' ∉ body) :
    string ('"' :: body) = ⟨'"' :: body, [], .error .unterminatedString⟩ := by
  have hall : ∀ c ∈ body, (c != '"') = true := by
    intro c hc
    rw [bne_iff_ne]
    rintro rfl
    exact hb hc
  have htake : (body ++ []).takeWhile (· != '"') = body := takeWhile_run hall (endsRun_none _)
  have hdrop : (body ++ []).dropWhile (· != '"') = [] := dropWhile_run hall (endsRun_none _)
  rw [List.append_nil] at htake hdrop
  simp only [string, htake, hdrop]

private theorem minusSign_append_left {sign text : List Char} (hs : Sign sign)
    (ht : text.head? ≠ some '-') : minusSign (sign ++ text) = (sign, text) := by
  rcases hs with rfl | rfl
  · cases text with
    | nil => rfl
    | cons c text =>
      have hc : c ≠ '-' := by simpa using ht
      simp [minusSign, hc]
  · rfl

private theorem head?_digits {digits : List Char} (hd : Digits digits) (rest : List Char) :
    (digits ++ rest).head? ≠ some '-' := by
  obtain ⟨d, more, rfl⟩ := List.exists_cons_of_ne_nil hd.1
  intro he
  have hdash : d = '-' := by simpa using he
  exact absurd (hd.forall_isDigit d List.mem_cons_self) (by rw [hdash]; decide)

theorem minusSign_digits {sign digits : List Char} (hs : Sign sign) (hd : Digits digits)
    (rest : List Char) : minusSign (sign ++ (digits ++ rest)) = (sign, digits ++ rest) :=
  minusSign_append_left hs (head?_digits hd rest)

theorem endsRun_point (rest : List Char) : EndsRun isDigit ('.' :: rest).head? := by
  simp only [List.head?_cons, endsRun_some]
  decide

theorem number_integer (options : Options) {sign digits rest : List Char} (hs : Sign sign)
    (hd : Digits digits) (hr : EndsRun isDigit rest.head?) (hp : rest.head? ≠ some '.') :
    number options (sign ++ (digits ++ rest)) =
      ⟨sign ++ digits, rest, intLiteral options sign digits⟩ := by
  have hsign := minusSign_digits hs hd rest
  simp only [number, hsign, takeWhile_run hd.forall_isDigit hr,
    dropWhile_run hd.forall_isDigit hr]
  split
  · simp at hp
  · rfl

theorem number_float (options : Options) {sign digits fraction rest : List Char} (hs : Sign sign)
    (hd : Digits digits) (hf : Digits fraction) (hr : EndsRun isDigit rest.head?) :
    number options (sign ++ (digits ++ '.' :: (fraction ++ rest))) =
      ⟨sign ++ digits ++ '.' :: fraction, rest, floatLiteral sign digits fraction⟩ := by
  have hsign := minusSign_digits hs hd ('.' :: (fraction ++ rest))
  have hpoint := endsRun_point (fraction ++ rest)
  simp only [number, hsign, takeWhile_run hd.forall_isDigit hpoint,
    dropWhile_run hd.forall_isDigit hpoint, takeWhile_run hf.forall_isDigit hr,
    dropWhile_run hf.forall_isDigit hr, if_neg hd.1, if_neg hf.1]

theorem number_trailingDot (options : Options) {sign digits rest : List Char} (hs : Sign sign)
    (hd : Digits digits) (hr : EndsRun isDigit rest.head?) :
    number options (sign ++ (digits ++ '.' :: rest)) =
      ⟨sign ++ digits, '.' :: rest, .error .trailingDot⟩ := by
  have hsign := minusSign_digits hs hd ('.' :: rest)
  have hpoint := endsRun_point rest
  simp only [number, hsign, takeWhile_run hd.forall_isDigit hpoint,
    dropWhile_run hd.forall_isDigit hpoint, takeWhile_of_endsRun hr, if_true]

theorem number_minus_point (options : Options) (rest : List Char) :
    ∃ fault, (fault = .trailingDot ∨ fault = .leadingDot) ∧
      number options ('-' :: '.' :: rest) = ⟨['-'], '.' :: rest, .error fault⟩ := by
  have htake := takeWhile_of_endsRun (endsRun_point rest)
  have hdrop := dropWhile_of_endsRun (endsRun_point rest)
  by_cases hf : rest.takeWhile isDigit = []
  · exact ⟨.trailingDot, .inl rfl, by simp [number, minusSign, htake, hdrop, hf]⟩
  · exact ⟨.leadingDot, .inr rfl, by simp [number, minusSign, htake, hdrop, hf]⟩

/-- What may follow a run of digits: no point, a point alone, or a point and more digits. -/
theorem after_digits_cases (rest : List Char) :
    rest.head? ≠ some '.' ∨
      (∃ after, rest = '.' :: after ∧ EndsRun isDigit after.head?) ∨
      ∃ fraction after, rest = '.' :: (fraction ++ after) ∧ Digits fraction ∧
        EndsRun isDigit after.head? := by
  by_cases hp : rest.head? = some '.'
  · obtain ⟨after, rfl⟩ := List.head?_eq_some_iff.mp hp
    by_cases hf : EndsRun isDigit after.head?
    · exact .inr (.inl ⟨after, rfl, hf⟩)
    · obtain ⟨d, hd, hdigit⟩ : ∃ d ∈ after.head?, isDigit d = true := by
        simpa [EndsRun] using hf
      obtain ⟨more, rfl⟩ := List.head?_eq_some_iff.mp hd
      obtain ⟨fraction, rest, he, hdigits, hr⟩ := exists_digits hdigit more
      exact .inr (.inr ⟨fraction, rest, by rw [he], hdigits, hr⟩)
  · exact .inl hp

theorem intLiteral_eq (options : Options) (sign : List Char) {digits : List Char}
    (hd : digits ≠ []) :
    intLiteral options sign digits =
      if Numeral.digitLimit < digits.length then .error (.malformedInteger (sign ++ digits))
      else if options.intMin ≤ signedValue sign digits ∧
          signedValue sign digits ≤ options.intMax then
        .ok { kind := .intLiteral, text := sign ++ digits,
              intValue := some (signedValue sign digits) }
      else .error (.integerOutOfRange (sign ++ digits)) := by
  simp only [intLiteral, hd, false_or]

theorem intLiteral_eq_ok {options : Options} {sign digits : List Char} {found : Lexeme}
    (hd : digits ≠ []) (h : intLiteral options sign digits = .ok found) :
    found = { kind := .intLiteral, text := sign ++ digits,
              intValue := some (signedValue sign digits) } := by
  rw [intLiteral_eq options sign hd] at h
  split at h
  · cases h
  split at h
  · exact (Except.ok.inj h).symm
  · cases h

theorem floatLiteral_eq_ok {sign digits fraction : List Char} {found : Lexeme}
    (h : floatLiteral sign digits fraction = .ok found) :
    ∃ value, found = { kind := .floatLiteral, text := sign ++ digits ++ '.' :: fraction,
                       floatValue := some value } := by
  simp only [floatLiteral] at h
  generalize Numeral.Binary64.ofDecimal? _ _ _ = value? at h
  cases value? with
  | none => cases h
  | some value => exact ⟨value, (Except.ok.inj h).symm⟩

theorem endOfLine_lineFeed (loneCr : Bool) (rest : List Char) :
    endOfLine loneCr ('\n' :: rest) = plain .endOfLine ['\n'] rest := by
  simp [endOfLine]

theorem endOfLine_pair (loneCr : Bool) (rest : List Char) :
    endOfLine loneCr ('\r' :: '\n' :: rest) = plain .endOfLine ['\r', '\n'] rest := rfl

theorem endOfLine_return (loneCr : Bool) {rest : List Char} (hr : rest.head? ≠ some '\n') :
    endOfLine loneCr ('\r' :: rest) =
      if loneCr then plain .endOfLine ['\r'] rest
      else refuse (.strayReturn ['\r']) ('\r' :: rest) := by
  cases rest with
  | nil => cases loneCr <;> rfl
  | cons c rest =>
    have hc : c ≠ '\n' := by simpa using hr
    cases loneCr <;> simp [endOfLine, hc]

theorem bracketKind?_eq_none_iff {c : Char} :
    bracketKind? c = none ↔ c ∉ ['(', ')', '\x7b', '\x7d'] := by
  have hall : ['(', ')', '\x7b', '\x7d'].all (fun c => (bracketKind? c).isSome) = true := by decide
  constructor
  · intro h hmem
    have hsome := List.all_eq_true.mp hall c hmem
    rw [h] at hsome
    cases hsome
  · intro h
    rw [bracketKind?, if_neg (by simpa using h)]

theorem punctuation_other (rest : List Char) {c : Char} (ht : c ≠ '@') (hc : c ≠ ':')
    (hm : c ≠ '-') : punctuation c rest =
      (bracketKind? c).elim (refuse (.unrecognizedCharacter c) (c :: rest))
        fun kind => plain kind [c] rest := by
  unfold punctuation
  split
  · exact absurd rfl ht
  · exact absurd rfl hc
  · exact absurd rfl hc
  · exact absurd rfl hm
  · cases bracketKind? c <;> rfl

theorem punctuation_colon {rest : List Char} (hr : rest.head? ≠ some ':') :
    punctuation ':' rest = refuse .loneColon (':' :: rest) := by
  cases rest with
  | nil => rfl
  | cons d rest =>
    have hd : d ≠ ':' := by simpa using hr
    simp [punctuation, hd]

end Lexing.Scan
