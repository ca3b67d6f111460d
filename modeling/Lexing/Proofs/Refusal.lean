import Lexing.Proofs.Dispatch
import Lexing.Proofs.Rounding
import Lexing.Proofs.Scan

/-!
# What the next scan refuses

`Refused` says at the start of which texts no lexeme can be made, and for what. The scan of the next
lexeme fails exactly there and reports exactly that.
-/

namespace Lexing

/-- A character that begins neither a lexeme nor a blank nor a comment. -/
def BeginsNothing (c : Char) : Prop :=
  ¬ WordStart c ∧ ¬ Digit c ∧
    c ∉ ['=', '+', '-', '*', '/', '^', '<', '>', '!', '|', '&', '"', '\n', '\r', '#', '(', ')', '\x7b',
      '\x7d', '@', ':', ' ', '\t']

/-- A text that begins with something that is not a lexeme, and what is reported of it. -/
inductive Refused (options : Options) : List Char → DiagnosticKind → Prop
  | compound {c : Char} (rest : List Char) (hc : c ∈ ['+', '-', '*', '/', '^', '|', '&']) :
      Refused options (c :: '=' :: rest) (.unrecognizedOperator [c, '='])
  | single {c : Char} {rest : List Char} (hc : c ∈ ['|', '&']) (hs : rest.head? ≠ some c)
      (he : rest.head? ≠ some '=') : Refused options (c :: rest) (.unrecognizedOperator [c])
  | minusPoint (rest : List Char) : Refused options ('-' :: '.' :: rest) .malformedNumber
  | trailingPoint {sign digits rest : List Char} (hs : Sign sign) (hd : Digits digits)
      (hr : EndsRun isDigit rest.head?) :
      Refused options (sign ++ (digits ++ '.' :: rest)) .malformedNumber
  | integer {sign digits rest : List Char} (hs : Sign sign) (hd : Digits digits)
      (hr : EndsRun isDigit rest.head?) (hp : rest.head? ≠ some '.')
      (hv : Numeral.digitLimit < digits.length ∨ Scan.signedValue sign digits < options.intMin ∨
        options.intMax < Scan.signedValue sign digits) :
      Refused options (sign ++ (digits ++ rest)) .malformedNumber
  | float {sign digits fraction rest : List Char} (hs : Sign sign) (hd : Digits digits)
      (hf : Digits fraction) (hr : EndsRun isDigit rest.head?)
      (hv : Numeral.overflowBound * 10 ^ fraction.length ≤
        Nat.ofDigitChars 10 (digits ++ fraction) 0) :
      Refused options (sign ++ (digits ++ '.' :: (fraction ++ rest))) .malformedNumber
  | string {body : List Char} (hb : '"' ∉ body) : Refused options ('"' :: body) .unterminatedString
  | colon {rest : List Char} (hr : rest.head? ≠ some ':') :
      Refused options (':' :: rest) (.unrecognizedCharacter [':'])
  | strayReturn {rest : List Char} (hl : options.loneCr = false) (hr : rest.head? ≠ some '\n') :
      Refused options ('\r' :: rest) (.unrecognizedCharacter ['\r'])
  | character {c : Char} (rest : List Char) (hc : BeginsNothing c) :
      Refused options (c :: rest) (.unrecognizedCharacter [c])

def Fault.kind : Fault → DiagnosticKind
  | .unrecognizedOperator spelling => .unrecognizedOperator spelling
  | .trailingDot | .leadingDot | .malformedInteger _ | .integerOutOfRange _ | .floatOutOfRange _ =>
    .malformedNumber
  | .unterminatedString => .unterminatedString
  | .loneColon => .unrecognizedCharacter [':']
  | .strayReturn found => .unrecognizedCharacter found
  | .unrecognizedCharacter c => .unrecognizedCharacter [c]

theorem Fault.kind_diagnose (options : Options) (fault : Fault) (location : Location)
    (line : List Char) : (fault.diagnose options location line).kind = fault.kind := by
  cases fault <;> rfl

theorem Fault.location_diagnose (options : Options) (fault : Fault) (location : Location)
    (line : List Char) : (fault.diagnose options location line).location = some location := by
  cases fault <;> rfl

namespace Scan

theorem intLiteral_eq_error_iff {options : Options} {sign digits : List Char} (hd : digits ≠ []) :
    (∃ fault, intLiteral options sign digits = .error fault) ↔
      Numeral.digitLimit < digits.length ∨ signedValue sign digits < options.intMin ∨
        options.intMax < signedValue sign digits := by
  rw [intLiteral_eq options sign hd]
  split
  · rename_i hlong
    exact iff_of_true ⟨_, rfl⟩ (.inl hlong)
  · rename_i hshort
    split
    · rename_i hrange
      refine iff_of_false (fun ⟨fault, hf⟩ => nomatch hf) ?_
      omega
    · rename_i hrange
      refine iff_of_true ⟨_, rfl⟩ ?_
      omega

theorem kind_of_intLiteral {options : Options} {sign digits : List Char} {fault : Fault}
    (h : intLiteral options sign digits = .error fault) : fault.kind = .malformedNumber := by
  simp only [intLiteral] at h
  split at h
  · rw [← Except.error.inj h]
    rfl
  split at h
  · cases h
  · rw [← Except.error.inj h]
    rfl

theorem floatLiteral_eq_error_iff {sign digits fraction : List Char} :
    (∃ fault, floatLiteral sign digits fraction = .error fault) ↔
      Numeral.overflowBound * 10 ^ fraction.length ≤ Nat.ofDigitChars 10 (digits ++ fraction) 0 := by
  rw [← Numeral.Binary64.ofDecimal?_eq_none_iff (sign != [])]
  simp only [floatLiteral]
  generalize Numeral.Binary64.ofDecimal? _ _ _ = value?
  cases value? with
  | none => simp
  | some value => simp

theorem kind_of_floatLiteral {sign digits fraction : List Char} {fault : Fault}
    (h : floatLiteral sign digits fraction = .error fault) : fault.kind = .malformedNumber := by
  simp only [floatLiteral] at h
  generalize Numeral.Binary64.ofDecimal? _ _ _ = value? at h
  cases value? with
  | none =>
    rw [← Except.error.inj h]
    rfl
  | some value => cases h

theorem beginsNothing_iff {c : Char} :
    BeginsNothing c ↔ Unclaimed c ∧ isBlank c = false ∧ c ≠ '@' ∧ c ≠ ':' ∧
      bracketKind? c = none := by
  rw [bracketKind?_eq_none_iff]
  simp only [BeginsNothing, Unclaimed, isWordStart_iff, isDigit_iff, isOperatorChar, isLineTerminator,
    isBlank, ← Bool.not_eq_true]
  simp
  tauto

private theorem next_compound (options : Options) {c : Char} (rest : List Char)
    (hc : c ∈ ['+', '-', '*', '/', '^', '|', '&']) :
    isBlank c = false ∧ (next options c ('=' :: rest)).outcome =
      .error (.unrecognizedOperator [c, '=']) := by
  have hall : ['+', '-', '*', '/', '^', '|', '&'].all (fun c => isOperatorChar c &&
      (reservedKind? [c, '=']).isNone) = true := by decide
  have hclass := List.all_eq_true.mp hall c hc
  rw [Bool.and_eq_true, Option.isNone_iff_eq_none] at hclass
  have hn : next options c ('=' :: rest) = (operator (c :: '=' :: rest)).map some := by
    by_cases hm : c = '-'
    · subst hm
      exact next_minus options ('=' :: rest)
    · exact next_of_isOperatorChar options ('=' :: rest) hclass.1 hm
  rw [hn, operator_double (by simp [joins]), hclass.2]
  exact ⟨isBlank_of_isOperatorChar hclass.1, rfl⟩

private theorem next_single (options : Options) {c : Char} {rest : List Char}
    (hc : c ∈ ['|', '&']) (hs : rest.head? ≠ some c) (he : rest.head? ≠ some '=') :
    isBlank c = false ∧ (next options c rest).outcome = .error (.unrecognizedOperator [c]) := by
  have hall : ['|', '&'].all (fun c => isOperatorChar c && c != '-' &&
      (reservedKind? [c]).isNone) = true := by decide
  have hclass := List.all_eq_true.mp hall c hc
  simp only [Bool.and_eq_true, Option.isNone_iff_eq_none, bne_iff_ne] at hclass
  have hj : EndsRun (joins c) rest.head? := by
    intro d hd
    have hequals : d ≠ '=' := by
      rintro rfl
      exact he hd
    have hself : d ≠ c := by
      rintro rfl
      exact hs hd
    simp [joins, hequals, hself]
  rw [next_of_isOperatorChar options rest hclass.1.1 hclass.1.2, operator_single hj, hclass.2]
  exact ⟨isBlank_of_isOperatorChar hclass.1.1, rfl⟩

/-- The next scan fails on every text that is refused. -/
theorem next_of_refused {options : Options} {text : List Char} {kind : DiagnosticKind}
    (h : Refused options text kind) :
    ∃ c rest fault, text = c :: rest ∧ isBlank c = false ∧
      (next options c rest).outcome = .error fault ∧ fault.kind = kind := by
  cases h with
  | @compound c rest hc =>
    obtain ⟨hb, hn⟩ := next_compound options rest hc
    exact ⟨c, '=' :: rest, _, rfl, hb, hn, rfl⟩
  | @single c rest hc hs he =>
    obtain ⟨hb, hn⟩ := next_single options hc hs he
    exact ⟨c, rest, _, rfl, hb, hn, rfl⟩
  | minusPoint rest =>
    obtain ⟨fault, hfault, hn⟩ := number_minus_point options rest
    refine ⟨'-', '.' :: rest, fault, rfl, by decide, ?_, ?_⟩
    · rw [next_minus]
      change ((number options ('-' :: '.' :: rest)).map some).outcome = _
      rw [hn]
      rfl
    · rcases hfault with rfl | rfl <;> rfl
  | @trailingPoint sign digits rest hs hd hr =>
    obtain ⟨c, more, he, hb, hn⟩ := next_of_digits options hs hd ('.' :: rest)
    rw [number_trailingDot options hs hd hr] at hn
    exact ⟨c, more, _, he, hb, by rw [hn]; rfl, rfl⟩
  | @integer sign digits rest hs hd hr hp hv =>
    obtain ⟨c, more, he, hb, hn⟩ := next_of_digits options hs hd rest
    obtain ⟨fault, hf⟩ := (intLiteral_eq_error_iff hd.1).mpr hv
    rw [number_integer options hs hd hr hp, hf] at hn
    exact ⟨c, more, fault, he, hb, by rw [hn]; rfl, kind_of_intLiteral hf⟩
  | @float sign digits fraction rest hs hd hf hr hv =>
    obtain ⟨c, more, he, hb, hn⟩ := next_of_digits options hs hd ('.' :: (fraction ++ rest))
    obtain ⟨fault, hfault⟩ := floatLiteral_eq_error_iff.mpr hv
    rw [number_float options hs hd hf hr, hfault] at hn
    exact ⟨c, more, fault, he, hb, by rw [hn]; rfl, kind_of_floatLiteral hfault⟩
  | @string body hb =>
    refine ⟨'"', body, .unterminatedString, rfl, by decide, ?_, rfl⟩
    rw [next_quote, string_open hb]
    rfl
  | @colon rest hr =>
    have hu : Unclaimed ':' := by unfold Unclaimed; decide
    refine ⟨':', rest, .loneColon, rfl, by decide, ?_, rfl⟩
    rw [next_of_unclaimed options rest hu, punctuation_colon hr]
    rfl
  | @strayReturn rest hl hr =>
    refine ⟨'\r', rest, .strayReturn ['\r'], rfl, by decide, ?_, rfl⟩
    rw [next_of_isLineTerminator options rest (by decide), endOfLine_return _ hr, hl]
    rfl
  | @character c rest hc =>
    obtain ⟨hu, hb, ht, hcolon, hk⟩ := beginsNothing_iff.mp hc
    have hm : c ≠ '-' := by
      rintro rfl
      exact absurd hu.2.1 (by decide)
    refine ⟨c, rest, .unrecognizedCharacter c, rfl, hb, ?_, rfl⟩
    rw [next_of_unclaimed options rest hu, punctuation_other rest ht hcolon hm, hk]
    rfl

end Scan

end Lexing
