import Mathlib
import Lexing.Text.ControlSequence

/-!
# Removing control sequences

A control sequence is on one line, so it is removed line by line. A text without ESC is kept as it is.
-/

namespace Lexing.Text

section Sequences

variable {text : List Char}

/-- What stands behind a line feed does not decide about a control sequence before it. -/
theorem afterControlSequence?_append (text more : List Char) :
    afterControlSequence? (text ++ '\n' :: more) =
      (afterControlSequence? text).map (· ++ '\n' :: more) := by
  have hrun {p : Char → Bool} (hp : p '\n' = false) (text : List Char) :
      (text ++ '\n' :: more).dropWhile p = text.dropWhile p ++ '\n' :: more := by
    rw [List.dropWhile_append]
    split
    · rename_i hempty
      rw [List.isEmpty_iff.mp hempty, List.dropWhile_cons, hp]
      rfl
    · rfl
  cases text with
  | nil => rfl
  | cons c text =>
    by_cases hc : c = '['
    · subst hc
      simp only [afterControlSequence?, List.cons_append, hrun (p := isParameterChar) (by decide),
        hrun (p := isIntermediateChar) (by decide)]
      cases (text.dropWhile isParameterChar).dropWhile isIntermediateChar with
      | nil => rfl
      | cons final rest =>
        simp only [List.cons_append]
        split <;> rfl
    · simp [afterControlSequence?, hc]

private theorem withoutControlSequences_eq (text : List Char) : withoutControlSequences text =
    match text.dropWhile (· != '\x1b') with
    | [] => text
    | escape :: rest =>
      text.takeWhile (· != '\x1b') ++
        match afterControlSequence? rest with
        | some after => withoutControlSequences after
        | none => escape :: withoutControlSequences rest := by
  rw [withoutControlSequences]
  split
  · rename_i hdrop
    rw [hdrop]
  · rename_i escape rest hdrop
    rw [hdrop]
    dsimp only
    split
    · rename_i hafter
      rw [hafter]
    · rename_i hafter
      rw [hafter]

@[simp] theorem withoutControlSequences_nil : withoutControlSequences [] = [] :=
  withoutControlSequences_eq []

theorem withoutControlSequences_cons {c : Char} (hc : c ≠ '\x1b') (text : List Char) :
    withoutControlSequences (c :: text) = c :: withoutControlSequences text := by
  have hkeep : (c != '\x1b') = true := bne_iff_ne.mpr hc
  rw [withoutControlSequences_eq, withoutControlSequences_eq text, List.dropWhile_cons, hkeep,
    List.takeWhile_cons, hkeep, if_pos rfl, if_pos rfl]
  split <;> rfl

theorem withoutControlSequences_escape (text : List Char) :
    withoutControlSequences ('\x1b' :: text) =
      match afterControlSequence? text with
      | some after => withoutControlSequences after
      | none => '\x1b' :: withoutControlSequences text :=
  withoutControlSequences_eq ('\x1b' :: text)

/-- Up to the first ESC a text is kept as it is. -/
theorem withoutControlSequences_append_left {front : List Char} (h : '\x1b' ∉ front)
    (text : List Char) :
    withoutControlSequences (front ++ text) = front ++ withoutControlSequences text := by
  induction front with
  | nil => rfl
  | cons c front ih =>
    rw [List.mem_cons, not_or] at h
    rw [List.cons_append, withoutControlSequences_cons (Ne.symm h.1), ih h.2, List.cons_append]

theorem withoutControlSequences_of_not_mem (h : '\x1b' ∉ text) :
    withoutControlSequences text = text := by
  have hkept := withoutControlSequences_append_left h []
  rwa [withoutControlSequences_nil, List.append_nil] at hkept

/-- Control sequences are removed from each line by itself. -/
theorem withoutControlSequences_lineFeed (text more : List Char) :
    withoutControlSequences (text ++ '\n' :: more) =
      withoutControlSequences text ++ '\n' :: withoutControlSequences more := by
  induction hn : text.length using Nat.strong_induction_on generalizing text with
  | _ n ih =>
    subst hn
    cases text with
    | nil =>
      rw [withoutControlSequences_nil]
      exact withoutControlSequences_cons (c := '\n') (by decide) more
    | cons c text =>
      have hshorter : text.length < (c :: text).length := Nat.lt_succ_self _
      by_cases hc : c = '\x1b'
      · subst hc
        rw [List.cons_append, withoutControlSequences_escape, withoutControlSequences_escape,
          afterControlSequence?_append]
        cases hafter : afterControlSequence? text with
        | none => exact congrArg _ (ih _ hshorter text rfl)
        | some after =>
          exact ih _ ((length_afterControlSequence? hafter).trans hshorter) after rfl
      · rw [List.cons_append, withoutControlSequences_cons hc, withoutControlSequences_cons hc,
          ih _ hshorter text rfl, List.cons_append]

end Sequences

end Lexing.Text
