import Mathlib
import Lexing.Alphabet

/-!
# Character classes and runs

The classes of the alphabet as ranges of characters, and the runs that `takeWhile` cuts off a text.
A run ends with the text or before a character outside its class.
-/

namespace Lexing

def Digit (c : Char) : Prop := '0' ≤ c ∧ c ≤ '9'

instance (c : Char) : Decidable (Digit c) :=
  inferInstanceAs (Decidable (_ ∧ _))

def Letter (c : Char) : Prop := ('A' ≤ c ∧ c ≤ 'Z') ∨ ('a' ≤ c ∧ c ≤ 'z')

def WordStart (c : Char) : Prop := Letter c ∨ c = '_'

def WordPart (c : Char) : Prop := WordStart c ∨ Digit c

theorem isDigit_iff {c : Char} : isDigit c = true ↔ Digit c := by
  simp [isDigit, Digit, Char.isDigit, Char.le_def]

theorem isWordStart_iff {c : Char} : isWordStart c = true ↔ WordStart c := by
  simp [isWordStart, WordStart, Letter, Char.isAlpha, Char.isUpper, Char.isLower, Char.le_def]

theorem isWordChar_iff {c : Char} : isWordChar c = true ↔ WordPart c := by
  have hs : isWordChar c = (isWordStart c || isDigit c) := by
    rw [isWordChar, isWordStart, isDigit, Char.isAlphanum, Bool.or_right_comm]
  rw [hs, Bool.or_eq_true, isWordStart_iff, isDigit_iff, WordPart]

theorem isWordStart_of_isDigit {c : Char} (h : isDigit c = true) : isWordStart c = false := by
  by_contra hw
  rw [Bool.not_eq_false, isWordStart_iff] at hw
  rw [isDigit_iff] at h
  have h9 : c.toNat ≤ 57 := h.2
  rcases hw with (hw | hw) | rfl
  · have : 65 ≤ c.toNat := hw.1
    omega
  · have : 97 ≤ c.toNat := hw.1
    omega
  · exact absurd h9 (by decide)

theorem isWordChar_of_isWordStart {c : Char} (h : isWordStart c = true) : isWordChar c = true :=
  isWordChar_iff.mpr (.inl (isWordStart_iff.mp h))

theorem isWordChar_of_isDigit {c : Char} (h : isDigit c = true) : isWordChar c = true :=
  isWordChar_iff.mpr (.inr (isDigit_iff.mp h))

/-- A run of the class `p` ends before the character that follows, if there is one. -/
def EndsRun (p : Char → Bool) (following : Option Char) : Prop :=
  ∀ c ∈ following, p c = false

@[simp] theorem endsRun_none (p : Char → Bool) : EndsRun p none := by
  simp [EndsRun]

@[simp] theorem endsRun_some (p : Char → Bool) (c : Char) : EndsRun p (some c) ↔ p c = false := by
  simp [EndsRun]

theorem endsRun_dropWhile (p : Char → Bool) (text : List Char) :
    EndsRun p (text.dropWhile p).head? := by
  intro c hc
  have h := List.head?_dropWhile_not p text
  rw [Option.mem_def.mp hc] at h
  exact h

theorem takeWhile_of_endsRun {p : Char → Bool} {rest : List Char} (hr : EndsRun p rest.head?) :
    rest.takeWhile p = [] := by
  cases rest with
  | nil => rfl
  | cons c rest => simp [(endsRun_some p c).mp hr]

theorem dropWhile_of_endsRun {p : Char → Bool} {rest : List Char} (hr : EndsRun p rest.head?) :
    rest.dropWhile p = rest := by
  cases rest with
  | nil => rfl
  | cons c rest => simp [(endsRun_some p c).mp hr]

theorem takeWhile_append_of_endsRun {p : Char → Bool} (text : List Char) {rest : List Char}
    (hr : EndsRun p rest.head?) : (text ++ rest).takeWhile p = text.takeWhile p := by
  induction text with
  | nil => exact takeWhile_of_endsRun hr
  | cons c text ih => rw [List.cons_append, List.takeWhile_cons, List.takeWhile_cons, ih]

theorem takeWhile_run {p : Char → Bool} {run rest : List Char}
    (hp : ∀ c ∈ run, p c = true) (hr : EndsRun p rest.head?) : (run ++ rest).takeWhile p = run := by
  rw [List.takeWhile_append_of_pos hp, takeWhile_of_endsRun hr, List.append_nil]

theorem dropWhile_run {p : Char → Bool} {run rest : List Char}
    (hp : ∀ c ∈ run, p c = true) (hr : EndsRun p rest.head?) : (run ++ rest).dropWhile p = rest := by
  rw [List.dropWhile_append_of_pos hp, dropWhile_of_endsRun hr]

theorem run_unique {p : Char → Bool} {run run' rest rest' : List Char}
    (hp : ∀ c ∈ run, p c = true) (hr : EndsRun p rest.head?) (hp' : ∀ c ∈ run', p c = true)
    (hr' : EndsRun p rest'.head?) (he : run ++ rest = run' ++ rest') :
    run = run' ∧ rest = rest' := by
  constructor
  · rw [← takeWhile_run hp hr, he, takeWhile_run hp' hr']
  · rw [← dropWhile_run hp hr, he, dropWhile_run hp' hr']

end Lexing
