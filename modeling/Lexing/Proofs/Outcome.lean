import Lexing.Proofs.Reading
import Lexing.Proofs.Refusal

/-!
# What the next scan comes to

Every scan that the first character asks for reads a lexeme that may be read there, or fails with a
fault for which the text is refused. Each scan is gone through once, with all that it can do.
-/

namespace Lexing.Scan

/-- A result that the grammar justifies: a lexeme that may be read, or a fault that is due. -/
inductive Justified (options : Options) (text : List Char) : Scan Lexeme → Prop
  | reads {found : Lexeme} {rest : List Char} (h : Reads options found rest.head?) :
      Justified options text ⟨found.text, rest, .ok found⟩
  | refused {taken rest : List Char} {fault : Fault} (h : Refused options text fault.kind) :
      Justified options text ⟨taken, rest, .error fault⟩

section Scans

variable (options : Options)

private theorem word_justified {c : Char} (hc : isWordStart c = true) (text : List Char) :
    Justified options (c :: text) (word (c :: text)) := by
  have ht : ∀ d ∈ text.takeWhile isWordChar, isWordChar d = true :=
    fun d hd => List.mem_takeWhile_imp hd
  have hr := endsRun_dropWhile isWordChar text
  have h := word_run hc ht hr
  rw [List.cons_append, List.takeWhile_append_dropWhile] at h
  rw [h]
  exact .reads (.word hc ht hr)

private theorem mark_of_operator (loneCr : Bool) {c : Char} {text : List Char} {kind : TokenKind}
    (hc : isOperatorChar c = true) (hk : reservedKind? (c :: text) = some kind) :
    (c :: text, kind) ∈ marks loneCr := by
  have hwords : ∀ entry ∈ reservedSpellings, entry.1.head?.any isOperatorChar = true →
      entry.2.isKeyword = false := by decide
  have hmem := reservedKind?_mem hk
  simp only [marks, List.mem_append, List.mem_filter]
  exact .inl (.inl ⟨hmem, by simp [hwords _ hmem hc]⟩)

private theorem mem_of_reservedKind?_single {c : Char} (hc : isOperatorChar c = true)
    (hk : reservedKind? [c] = none) : c ∈ ['|', '&'] := by
  have h := forall_operatorChar (fun c => (reservedKind? [c]).isSome || ['|', '&'].contains c)
    (by decide) hc
  simpa [hk] using h

private theorem mem_of_reservedKind?_equals {c : Char} (hc : isOperatorChar c = true)
    (hk : reservedKind? [c, '='] = none) : c ∈ ['+', '-', '*', '/', '^', '|', '&'] := by
  have h := forall_operatorChar (fun c => (reservedKind? [c, '=']).isSome ||
    ['+', '-', '*', '/', '^', '|', '&'].contains c) (by decide) hc
  simpa [hk] using h

private theorem single_justified {c : Char} {text : List Char} (hc : isOperatorChar c = true)
    (hj : EndsRun (joins c) text.head?)
    (hm : c = '-' → EndsRun (fun d => d == '>' || d == '.' || isDigit d) text.head?) :
    Justified options (c :: text) (operator (c :: text)) := by
  rw [operator_single hj]
  cases hk : reservedKind? [c] with
  | none =>
    have hmem := mem_of_reservedKind?_single hc hk
    refine .refused (.single hmem ?_ ?_)
    · intro hs
      have hself : joins c c = false := hj c hs
      simp only [List.mem_cons, List.not_mem_nil, or_false] at hmem
      rcases hmem with rfl | rfl
      · exact absurd hself (by decide)
      · exact absurd hself (by decide)
    · intro he
      have hequals := hj '=' he
      simp [joins] at hequals
  | some kind =>
    refine .reads (.mark (mark_of_operator _ hc hk) ?_)
    intro d hd
    have hreturn : c ≠ '\r' := by
      rintro rfl
      exact absurd hc (by decide)
    by_cases hminus : c = '-'
    · simp [joinsMark, hj d hd, hm hminus d hd, hreturn]
    · simp [joinsMark, hj d hd, hminus, hreturn]

private theorem double_justified {c d : Char} (hc : isOperatorChar c = true)
    (hj : joins c d = true) (rest : List Char) :
    Justified options (c :: d :: rest) (operator (c :: d :: rest)) := by
  rw [operator_double hj]
  cases hk : reservedKind? [c, d] with
  | some kind => exact .reads (.mark (mark_of_operator _ hc hk) (fun _ _ => rfl))
  | none =>
    have hcases : d = '=' ∨ d = c ∧ (c = '|' ∨ c = '&') := by simpa [joins] using hj
    rcases hcases with rfl | ⟨rfl, rfl | rfl⟩
    · exact .refused (.compound rest (mem_of_reservedKind?_equals hc hk))
    · exact absurd hk (by decide)
    · exact absurd hk (by decide)

private theorem operator_justified {c : Char} {text : List Char} (hc : isOperatorChar c = true)
    (hm : c = '-' → EndsRun (fun d => d == '>' || d == '.' || isDigit d) text.head?) :
    Justified options (c :: text) (operator (c :: text)) := by
  by_cases hj : EndsRun (joins c) text.head?
  · exact single_justified options hc hj hm
  · obtain ⟨d, hd, hjoin⟩ : ∃ d ∈ text.head?, joins c d = true := by
      simpa [EndsRun] using hj
    obtain ⟨rest, rfl⟩ := List.head?_eq_some_iff.mp hd
    exact double_justified options hc hjoin rest

private theorem number_justified {sign digits rest : List Char} (hs : Sign sign)
    (hd : Digits digits) (hr : EndsRun isDigit rest.head?) :
    Justified options (sign ++ (digits ++ rest)) (number options (sign ++ (digits ++ rest))) := by
  rcases after_digits_cases rest with hp | ⟨after, rfl, ha⟩ | ⟨fraction, after, rfl, hf, ha⟩
  · rw [number_integer options hs hd hr hp]
    cases hv : intLiteral options sign digits with
    | ok found =>
      obtain rfl := intLiteral_eq_ok hd.1 hv
      exact .reads (.integer hs hd hv hr hp)
    | error fault =>
      apply Justified.refused
      rw [kind_of_intLiteral hv]
      exact .integer hs hd hr hp ((intLiteral_eq_error_iff hd.1).mp ⟨fault, hv⟩)
  · rw [number_trailingDot options hs hd ha]
    exact .refused (.trailingPoint hs hd ha)
  · rw [number_float options hs hd hf ha]
    cases hv : floatLiteral sign digits fraction with
    | ok found =>
      obtain ⟨value, rfl⟩ := floatLiteral_eq_ok hv
      exact .reads (.float hs hd hf hv ha)
    | error fault =>
      apply Justified.refused
      rw [kind_of_floatLiteral hv]
      exact .float hs hd hf ha (floatLiteral_eq_error_iff.mp ⟨fault, hv⟩)

private theorem minus_justified (text : List Char) :
    Justified options ('-' :: text) (minus options text) := by
  unfold minus
  split
  · rename_i harrow
    obtain ⟨rest, rfl⟩ := List.head?_eq_some_iff.mp harrow
    exact .reads (.mark (by cases options.loneCr <;> decide) (fun _ _ => rfl))
  · rename_i d harrow hd
    obtain ⟨rest, rfl⟩ := List.head?_eq_some_iff.mp hd
    split
    · rename_i hnumber
      by_cases hdigit : isDigit d = true
      · obtain ⟨digits, after, he, hdigits, hr⟩ := exists_digits hdigit rest
        rw [he]
        exact number_justified options (.inr rfl) hdigits hr
      · obtain rfl : d = '.' := by simpa [hdigit] using hnumber
        obtain ⟨fault, hfault, hn⟩ := number_minus_point options rest
        have hkind : fault.kind = .malformedNumber := by rcases hfault with rfl | rfl <;> rfl
        rw [hn]
        apply Justified.refused
        rw [hkind]
        exact .minusPoint rest
    · rename_i hnumber
      refine operator_justified options (by decide) (fun _ => ?_)
      have hne : d ≠ '>' := by
        rintro rfl
        exact harrow rfl
      simpa [hne, and_comm] using hnumber
  · rename_i hd
    exact operator_justified options (by decide) (fun _ => by rw [hd]; exact endsRun_none _)

private theorem string_justified (text : List Char) :
    Justified options ('"' :: text) (string ('"' :: text)) := by
  by_cases hmem : '"' ∈ text
  · obtain ⟨body, rest, rfl, hb⟩ := List.eq_append_cons_of_mem hmem
    rw [string_closed hb]
    exact .reads (.string hb)
  · rw [string_open hmem]
    exact .refused (.string hmem)

private theorem endOfLine_justified {c : Char} (hc : isLineTerminator c = true)
    (text : List Char) : Justified options (c :: text) (endOfLine options.loneCr (c :: text)) := by
  have hcases : c = '\n' ∨ c = '\r' := by simpa [isLineTerminator] using hc
  rcases hcases with rfl | rfl
  · rw [endOfLine_lineFeed]
    refine .reads (.mark (by simp [marks]) ?_)
    intro d _
    simp [joinsMark, isOperatorChar]
  · by_cases hr : text.head? = some '\n'
    · obtain ⟨rest, rfl⟩ := List.head?_eq_some_iff.mp hr
      rw [endOfLine_pair]
      exact .reads (.mark (by simp [marks]) (fun _ _ => rfl))
    · rw [endOfLine_return _ hr]
      cases hl : options.loneCr with
      | false => exact .refused (.strayReturn hl hr)
      | true =>
        refine .reads (.mark (by simp [marks, hl]) ?_)
        intro d hd
        have hne : d ≠ '\n' := by
          rintro rfl
          exact hr hd
        simp [joinsMark, isOperatorChar, hne]

private theorem bracket_of_kind {c : Char} {kind : TokenKind} (h : bracketKind? c = some kind)
    (loneCr : Bool) : ([c], kind) ∈ marks loneCr ∧ ∀ d, joinsMark [c] d = false := by
  have hmem : c ∈ ['(', ')', '\x7b', '\x7d'] := by
    by_contra hc
    rw [bracketKind?_eq_none_iff.mpr hc] at h
    cases h
  simp only [List.mem_cons, List.not_mem_nil, or_false] at hmem
  rcases hmem with rfl | rfl | rfl | rfl
  all_goals
    obtain rfl := Option.some.inj h
    exact ⟨by cases loneCr <;> decide, fun d => by simp [joinsMark, isOperatorChar]⟩

private theorem punctuation_justified {c : Char} (hc : Unclaimed c) (hb : isBlank c = false)
    (text : List Char) : Justified options (c :: text) (punctuation c text) := by
  by_cases ht : c = '@'
  · subst ht
    refine .reads (.mark (by simp [marks]) ?_)
    intro d _
    simp [joinsMark, isOperatorChar]
  by_cases hcolon : c = ':'
  · subst hcolon
    by_cases hr : text.head? = some ':'
    · obtain ⟨rest, rfl⟩ := List.head?_eq_some_iff.mp hr
      exact .reads (.mark (by cases options.loneCr <;> decide) (fun _ _ => rfl))
    · rw [punctuation_colon hr]
      exact .refused (.colon hr)
  have hm : c ≠ '-' := by
    rintro rfl
    exact absurd hc.2.1 (by decide)
  rw [punctuation_other text ht hcolon hm]
  cases hk : bracketKind? c with
  | some kind =>
    obtain ⟨hmark, hjoin⟩ := bracket_of_kind hk options.loneCr
    exact .reads (.mark hmark (fun d _ => hjoin d))
  | none => exact .refused (.character text (beginsNothing_iff.mpr ⟨hc, hb, ht, hcolon, hk⟩))

/-- The next scan skips a comment or comes to a result that the grammar justifies. -/
theorem next_justified {c : Char} (hb : isBlank c = false) (text : List Char) :
    c = '#' ∨
      ∃ scan, next options c text = scan.map some ∧ Justified options (c :: text) scan := by
  rcases firstChar_cases c with hc | rfl | ⟨hc, hm⟩ | hc | rfl | hc | rfl | hc
  · exact .inr ⟨_, next_of_isWordStart options text hc, word_justified options hc text⟩
  · exact .inr ⟨_, next_minus options text, minus_justified options text⟩
  · exact .inr ⟨_, next_of_isOperatorChar options text hc hm,
      operator_justified options hc (fun he => absurd he hm)⟩
  · obtain ⟨digits, rest, he, hd, hr⟩ := exists_digits hc text
    have h := number_justified options (.inl rfl) hd hr
    rw [List.nil_append, ← he] at h
    exact .inr ⟨_, next_of_isDigit options text hc, h⟩
  · exact .inr ⟨_, next_quote options text, string_justified options text⟩
  · exact .inr ⟨_, next_of_isLineTerminator options text hc, endOfLine_justified options hc text⟩
  · exact .inl rfl
  · exact .inr ⟨_, next_of_unclaimed options text hc, punctuation_justified options hc hb text⟩

end Scans

section Next

variable {options : Options} {c : Char} {text : List Char}

theorem eq_hash_of_next_none (hb : isBlank c = false)
    (h : (next options c text).outcome = .ok none) : c = '#' := by
  rcases next_justified options hb text with hc | ⟨scan, hn, -⟩
  · exact hc
  · rw [hn] at h
    obtain ⟨lexeme, -, he⟩ := map_eq_ok h
    cases he

/-- A lexeme found by the next scan is the text taken, and may be read before what is left. -/
theorem reads_of_next {found : Lexeme} (hb : isBlank c = false)
    (h : (next options c text).outcome = .ok (some found)) :
    found.text = (next options c text).taken ∧
      Reads options found (next options c text).rest.head? := by
  rcases next_justified options hb text with rfl | ⟨scan, hn, hj⟩
  · rw [next_hash options text] at h
    cases Except.ok.inj h
  · rw [hn] at h ⊢
    obtain ⟨lexeme, hl, he⟩ := map_eq_ok h
    obtain rfl := Option.some.inj he
    cases hj with
    | reads hr =>
      obtain rfl := Except.ok.inj hl
      exact ⟨rfl, hr⟩
    | refused _ => cases hl

theorem refused_of_next {fault : Fault} (hb : isBlank c = false)
    (h : (next options c text).outcome = .error fault) : Refused options (c :: text) fault.kind := by
  rcases next_justified options hb text with rfl | ⟨scan, hn, hj⟩
  · rw [next_hash options text] at h
    cases h
  · rw [hn] at h
    cases hj with
    | reads _ => cases h
    | refused hr =>
      obtain rfl := Except.error.inj h
      exact hr

end Next

end Lexing.Scan
