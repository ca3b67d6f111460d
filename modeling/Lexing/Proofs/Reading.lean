import Lexing.Proofs.Dispatch
import Lexing.Proofs.Scan

/-!
# What the next scan reads

`Reads` says which lexeme a scan finds, given the lexeme's text and the one character that follows.
The scan of the next lexeme finds exactly what `Reads` allows, so one character of lookahead is all
that a lexeme depends on.
-/

namespace Lexing

/-- Whether a mark does not end before a character, which makes it longer or turns it into a fault. -/
def joinsMark : List Char → Char → Bool
  | [c], d =>
    (isOperatorChar c && Scan.joins c d) || (c == '-' && (d == '>' || d == '.' || isDigit d)) ||
      (c == '\r' && d == '\n')
  | _, _ => false

/-- A lexeme that is read before a character, or before the end of the text. -/
inductive Reads (options : Options) : Lexeme → Option Char → Prop
  | word {c : Char} {text : List Char} {following : Option Char} (hc : isWordStart c = true)
      (ht : ∀ d ∈ text, isWordChar d = true) (hr : EndsRun isWordChar following) :
      Reads options { kind := wordKind (c :: text), text := c :: text } following
  | integer {sign digits : List Char} {found : Lexeme} {following : Option Char} (hs : Sign sign)
      (hd : Digits digits) (hv : Scan.intLiteral options sign digits = .ok found)
      (hr : EndsRun isDigit following) (hp : following ≠ some '.') : Reads options found following
  | float {sign digits fraction : List Char} {found : Lexeme} {following : Option Char}
      (hs : Sign sign) (hd : Digits digits) (hf : Digits fraction)
      (hv : Scan.floatLiteral sign digits fraction = .ok found) (hr : EndsRun isDigit following) :
      Reads options found following
  | string {body : List Char} {following : Option Char} (hb : '"' ∉ body) :
      Reads options { kind := .stringLiteral, text := '"' :: (body ++ ['"']) } following
  | mark {spelling : List Char} {kind : TokenKind} {following : Option Char}
      (hm : (spelling, kind) ∈ marks options.loneCr) (hr : EndsRun (joinsMark spelling) following) :
      Reads options { kind, text := spelling } following

theorem Reads.spelled {options : Options} {found : Lexeme} {following : Option Char}
    (h : Reads options found following) : Spelled options.loneCr found.text found.kind := by
  cases h with
  | word hc ht hr =>
    exact .word (isWordStart_iff.mp hc) (fun d hd => isWordChar_iff.mp (ht d hd))
  | integer hs hd hv hr hp =>
    obtain rfl := Scan.intLiteral_eq_ok hd.1 hv
    exact .integer hs hd
  | float hs hd hf hv hr =>
    obtain ⟨value, rfl⟩ := Scan.floatLiteral_eq_ok hv
    exact .float hs hd hf
  | string hb => exact .string hb
  | mark hm hr => exact .mark hm

namespace Scan

private def isOperatorMark : List Char → Bool
  | [c] => isOperatorChar c
  | [c, d] => isOperatorChar c && joins c d
  | _ => false

private def punctuationMarks : List (List Char × TokenKind) :=
  [(['('], .parenOpen), ([')'], .parenClose), (['\x7b'], .curlyOpen), (['\x7d'], .curlyClose),
    (['@'], .typeSignature), ([':', ':'], .paramIndicator), (['-', '>'], .leftArrow)]

private theorem mark_cases {loneCr : Bool} : ∀ entry ∈ marks loneCr,
    (isOperatorMark entry.1 = true ∧ reservedKind? entry.1 = some entry.2) ∨
      entry ∈ punctuationMarks ∨ entry.2 = .endOfLine ∧
        (entry.1 = ['\n'] ∨ entry.1 = ['\r', '\n'] ∨ loneCr = true ∧ entry.1 = ['\r']) := by
  cases loneCr <;> decide

private theorem minus_operator (options : Options) {rest : List Char}
    (hr : EndsRun (fun d => d == '>' || d == '.' || isDigit d) rest.head?) :
    minus options rest = operator ('-' :: rest) := by
  cases rest with
  | nil => rfl
  | cons d rest =>
    have hd := (endsRun_some _ d).mp hr
    simp only [Bool.or_eq_false_iff, beq_eq_false_iff_ne] at hd
    simp [minus, hd]

private theorem next_of_operatorMark (options : Options) {spelling rest : List Char}
    {kind : TokenKind} (hm : isOperatorMark spelling = true)
    (hk : reservedKind? spelling = some kind) (hr : EndsRun (joinsMark spelling) rest.head?) :
    ∃ c text, spelling ++ rest = c :: text ∧ isBlank c = false ∧
      next options c text = (plain kind spelling rest).map some := by
  match spelling, hm with
  | [c], hc =>
    have hc : isOperatorChar c = true := hc
    have hj : EndsRun (joins c) rest.head? := by
      intro d hd
      have h := hr d hd
      simp only [joinsMark, hc, Bool.true_and, Bool.or_eq_false_iff] at h
      exact h.1.1
    refine ⟨c, rest, rfl, isBlank_of_isOperatorChar hc, ?_⟩
    by_cases hminus : c = '-'
    · subst hminus
      have hnumber : EndsRun (fun d => d == '>' || d == '.' || isDigit d) rest.head? := by
        intro d hd
        have h := hr d hd
        simp only [joinsMark, Bool.or_eq_false_iff] at h
        simpa using h.1.2
      rw [next_minus, minus_operator options hnumber, operator_single hj, hk]
      rfl
    · rw [next_of_isOperatorChar options rest hc hminus, operator_single hj, hk]
      rfl
  | [c, d], hcd =>
    obtain ⟨hc, hj⟩ := Bool.and_eq_true_iff.mp hcd
    have hminus : c ≠ '-' := by
      rintro rfl
      have hd : d = '=' := by simpa [joins] using hj
      have hnone : reservedKind? ['-', '='] = none := by decide
      rw [hd, hnone] at hk
      cases hk
    refine ⟨c, d :: rest, rfl, isBlank_of_isOperatorChar hc, ?_⟩
    rw [next_of_isOperatorChar options _ hc hminus, operator_double hj, hk]
    rfl

private theorem next_of_punctuationMark (options : Options) {spelling : List Char}
    {kind : TokenKind} (hm : (spelling, kind) ∈ punctuationMarks) (rest : List Char) :
    ∃ c text, spelling ++ rest = c :: text ∧ isBlank c = false ∧
      next options c text = (plain kind spelling rest).map some := by
  simp only [punctuationMarks, List.mem_cons, List.not_mem_nil, or_false, Prod.mk.injEq] at hm
  rcases hm with ⟨rfl, rfl⟩ | ⟨rfl, rfl⟩ | ⟨rfl, rfl⟩ | ⟨rfl, rfl⟩ | ⟨rfl, rfl⟩ | ⟨rfl, rfl⟩ |
    ⟨rfl, rfl⟩
  all_goals exact ⟨_, _, rfl, by decide, rfl⟩

private theorem next_of_endMark (options : Options) {spelling rest : List Char}
    (hm : spelling = ['\n'] ∨ spelling = ['\r', '\n'] ∨ options.loneCr = true ∧ spelling = ['\r'])
    (hr : EndsRun (joinsMark spelling) rest.head?) :
    ∃ c text, spelling ++ rest = c :: text ∧ isBlank c = false ∧
      next options c text = (plain .endOfLine spelling rest).map some := by
  rcases hm with rfl | rfl | ⟨hl, rfl⟩
  · refine ⟨'\n', rest, rfl, by decide, ?_⟩
    rw [next_of_isLineTerminator options _ (by decide), endOfLine_lineFeed]
  · refine ⟨'\r', '\n' :: rest, rfl, by decide, ?_⟩
    rw [next_of_isLineTerminator options _ (by decide), endOfLine_pair]
  · have hfeed : rest.head? ≠ some '\n' := by
      intro hd
      have h := hr '\n' hd
      simp [joinsMark] at h
    refine ⟨'\r', rest, rfl, by decide, ?_⟩
    rw [next_of_isLineTerminator options _ (by decide), endOfLine_return _ hfeed, if_pos hl]

/-- What may be read before the rest of a text is found there by the next scan. -/
theorem next_of_reads {options : Options} {found : Lexeme} {rest : List Char}
    (h : Reads options found rest.head?) :
    ∃ c text, found.text ++ rest = c :: text ∧ isBlank c = false ∧
      next options c text = ⟨found.text, rest, .ok (some found)⟩ := by
  generalize hf : rest.head? = following at h
  cases h with
  | @word c text _ hc ht hr =>
    subst hf
    refine ⟨c, text ++ rest, rfl, not_isBlank isWordStart hc (by decide) (by decide), ?_⟩
    rw [next_of_isWordStart options _ hc, ← List.cons_append, word_run hc ht hr]
    rfl
  | @integer sign digits _ _ hs hd hv hr hp =>
    subst hf
    obtain ⟨c, text, he, hb, hn⟩ := next_of_digits options hs hd rest
    rw [number_integer options hs hd hr hp, hv] at hn
    obtain rfl := intLiteral_eq_ok hd.1 hv
    exact ⟨c, text, by rw [← he, List.append_assoc], hb, hn⟩
  | @float sign digits fraction _ _ hs hd hf' hv hr =>
    subst hf
    obtain ⟨c, text, he, hb, hn⟩ := next_of_digits options hs hd ('.' :: (fraction ++ rest))
    rw [number_float options hs hd hf' hr, hv] at hn
    obtain ⟨value, rfl⟩ := floatLiteral_eq_ok hv
    exact ⟨c, text, by rw [← he]; simp, hb, hn⟩
  | @string body _ hb =>
    refine ⟨'"', body ++ '"' :: rest, by simp, by decide, ?_⟩
    rw [next_quote, string_closed hb]
    rfl
  | @mark spelling kind _ hm hr =>
    subst hf
    rcases mark_cases _ hm with ⟨ho, hk⟩ | hp | ⟨hkind, he⟩
    · exact next_of_operatorMark options ho hk hr
    · exact next_of_punctuationMark options hp rest
    · obtain rfl : kind = .endOfLine := hkind
      exact next_of_endMark options he hr

end Scan

end Lexing
