import Lexing.Proofs.Grammar
import Lexing.Scan.Next

/-!
# Dispatch on the first character

Which scan the first character asks for, one lemma for each class of first characters, and what each
scan finds in a text whose lexeme is known.
-/

namespace Lexing.Scan

theorem forall_operatorChar (p : Char → Bool)
    (hp : ['=', '+', '-', '*', '/', '^', '<', '>', '!', '|', '&'].all p = true) {c : Char}
    (hc : isOperatorChar c = true) : p c = true :=
  List.all_eq_true.mp hp c (List.contains_iff_mem.mp hc)

theorem isWordStart_of_isOperatorChar {c : Char} (hc : isOperatorChar c = true) :
    isWordStart c = false := by
  have h := forall_operatorChar (fun c => !isWordStart c) (by decide) hc
  simpa using h

theorem isBlank_of_isOperatorChar {c : Char} (hc : isOperatorChar c = true) :
    isBlank c = false := by
  have h := forall_operatorChar (fun c => !isBlank c) (by decide) hc
  simpa using h

theorem isDigit_of_isOperatorChar {c : Char} (hc : isOperatorChar c = true) :
    isDigit c = false := by
  have h := forall_operatorChar (fun c => !isDigit c) (by decide) hc
  simpa using h

theorem ne_of_isDigit {c d : Char} (hc : isDigit c = true) (hd : isDigit d = false) : c ≠ d := by
  rintro rfl
  rw [hc] at hd
  exact Bool.true_eq_false_eq_False hd

theorem isOperatorChar_of_isDigit {c : Char} (hc : isDigit c = true) : isOperatorChar c = false := by
  by_contra ho
  rw [Bool.not_eq_false] at ho
  exact ne_of_isDigit hc (isDigit_of_isOperatorChar ho) rfl

/-- A character that no other scan claims, which leaves it to the scan of punctuation. -/
def Unclaimed (c : Char) : Prop :=
  isWordStart c = false ∧ isOperatorChar c = false ∧ isDigit c = false ∧ c ≠ '"' ∧
    isLineTerminator c = false ∧ c ≠ '#'

theorem firstChar_cases (c : Char) :
    isWordStart c = true ∨ c = '-' ∨ (isOperatorChar c = true ∧ c ≠ '-') ∨ isDigit c = true ∨
      c = '"' ∨ isLineTerminator c = true ∨ c = '#' ∨ Unclaimed c := by
  unfold Unclaimed
  cases isWordStart c <;> cases isOperatorChar c <;> cases isDigit c <;>
    cases isLineTerminator c <;> simp <;> tauto

section Classes

variable (options : Options) (text : List Char)

theorem next_of_isWordStart {c : Char} (hc : isWordStart c = true) :
    next options c text = (word (c :: text)).map some := by
  simp only [next, hc, if_true]

theorem next_minus : next options '-' text = (minus options text).map some := by
  have hw : isWordStart '-' = false := by decide
  simp only [next, hw, Bool.false_eq_true, if_false, if_true]

theorem next_of_isOperatorChar {c : Char} (hc : isOperatorChar c = true) (hm : c ≠ '-') :
    next options c text = (operator (c :: text)).map some := by
  simp only [next, isWordStart_of_isOperatorChar hc, hc, hm, Bool.false_eq_true, if_false, if_true]

theorem next_of_isDigit {c : Char} (hc : isDigit c = true) :
    next options c text = (number options (c :: text)).map some := by
  have hm : c ≠ '-' := ne_of_isDigit hc (by decide)
  simp only [next, isWordStart_of_isDigit hc, isOperatorChar_of_isDigit hc, hc, hm,
    Bool.false_eq_true, if_false, if_true]

theorem next_quote : next options '"' text = (string ('"' :: text)).map some := by
  have h : isWordStart '"' = false ∧ isOperatorChar '"' = false ∧ isDigit '"' = false := by decide
  simp [next, h]

theorem next_of_isLineTerminator {c : Char} (hc : isLineTerminator c = true) :
    next options c text = (endOfLine options.loneCr (c :: text)).map some := by
  have hcases : c = '\n' ∨ c = '\r' := by simpa [isLineTerminator] using hc
  rcases hcases with rfl | rfl
  · have h : isWordStart '\n' = false ∧ isOperatorChar '\n' = false ∧ isDigit '\n' = false := by
      decide
    simp [next, h, hc]
  · have h : isWordStart '\r' = false ∧ isOperatorChar '\r' = false ∧ isDigit '\r' = false := by
      decide
    simp [next, h, hc]

theorem next_hash : next options '#' text = comment options.loneCr ('#' :: text) := by
  have h : isWordStart '#' = false ∧ isOperatorChar '#' = false ∧ isDigit '#' = false ∧
    isLineTerminator '#' = false := by decide
  simp [next, h]

theorem next_of_unclaimed {c : Char} (hc : Unclaimed c) :
    next options c text = (punctuation c text).map some := by
  obtain ⟨hw, ho, hd, hq, hl, hh⟩ := hc
  have hm : c ≠ '-' := by
    rintro rfl
    exact absurd ho (by decide)
  simp only [next, hw, ho, hd, hq, hl, hh, hm, Bool.false_eq_true, if_false]

end Classes

theorem not_isBlank {c : Char} (p : Char → Bool) (hc : p c = true) (hs : p ' ' = false)
    (ht : p '\t' = false) : isBlank c = false := by
  have hspace : c ≠ ' ' := by
    rintro rfl
    exact absurd hc (by rw [hs]; decide)
  have htab : c ≠ '\t' := by
    rintro rfl
    exact absurd hc (by rw [ht]; decide)
  simp [isBlank, hspace, htab]

theorem next_of_digits (options : Options) {sign digits : List Char} (hs : Sign sign)
    (hd : Digits digits) (rest : List Char) :
    ∃ c text, sign ++ (digits ++ rest) = c :: text ∧ isBlank c = false ∧
      next options c text = (number options (sign ++ (digits ++ rest))).map some := by
  obtain ⟨d, more, rfl⟩ := List.exists_cons_of_ne_nil hd.1
  have hdigit := hd.forall_isDigit d List.mem_cons_self
  rcases hs with rfl | rfl
  · exact ⟨d, more ++ rest, rfl, not_isBlank isDigit hdigit (by decide) (by decide),
      next_of_isDigit options _ hdigit⟩
  · have harrow : d ≠ '>' := ne_of_isDigit hdigit (by decide)
    refine ⟨'-', d :: more ++ rest, rfl, by decide, ?_⟩
    rw [next_minus]
    simp [minus, hdigit]

end Lexing.Scan
