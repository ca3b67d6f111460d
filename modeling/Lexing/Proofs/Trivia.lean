import Lexing.Proofs.Dispatch

/-!
# Blanks and comments

What may stand between two lexemes: spaces, tabs and whole comments. Whether a comment is whole
depends on the text behind it, since a line feed there would belong to its terminator.
-/

namespace Lexing

/-- What a comment ends with, given the text behind it. -/
inductive CommentEnd (loneCr : Bool) : List Char → List Char → Prop
  | lineFeed (rest : List Char) : CommentEnd loneCr ['\n'] rest
  | pair (rest : List Char) : CommentEnd loneCr ['\r', '\n'] rest
  | loneReturn {rest : List Char} (hl : loneCr = true) (hr : rest.head? ≠ some '\n') :
      CommentEnd loneCr ['\r'] rest
  | endOfText : CommentEnd loneCr [] []

/-- The characters of one line, without its terminator. -/
def OneLine (text : List Char) : Prop := ∀ c ∈ text, c ≠ '\n' ∧ c ≠ '\r'

/-- Blanks and whole comments, given the text behind them. -/
inductive Trivia (loneCr : Bool) : List Char → List Char → Prop
  | nil (rest : List Char) : Trivia loneCr [] rest
  | blank {c : Char} {gap rest : List Char} (hc : c = ' ' ∨ c = '\t') (h : Trivia loneCr gap rest) :
      Trivia loneCr (c :: gap) rest
  | comment {body ending gap rest : List Char} (hb : OneLine body)
      (he : CommentEnd loneCr ending (gap ++ rest)) (h : Trivia loneCr gap rest) :
      Trivia loneCr ('#' :: (body ++ (ending ++ gap))) rest

theorem isBlank_iff {c : Char} : isBlank c = true ↔ c = ' ' ∨ c = '\t' := by
  simp [isBlank]

theorem OneLine.not_isLineTerminator {text : List Char} (h : OneLine text) :
    ∀ c ∈ text, (!isLineTerminator c) = true := by
  intro c hc
  simp [isLineTerminator, h c hc]

namespace Scan

theorem lineEnd_return (loneCr : Bool) {rest : List Char} (hr : rest.head? ≠ some '\n') :
    lineEnd loneCr ('\r' :: rest) = if loneCr then (['\r'], rest) else ([], '\r' :: rest) := by
  cases rest with
  | nil => rfl
  | cons d rest =>
    have hd : d ≠ '\n' := by simpa using hr
    simp [lineEnd, hd]

theorem lineEnd_of_commentEnd {loneCr : Bool} {ending rest : List Char}
    (h : CommentEnd loneCr ending rest) : lineEnd loneCr (ending ++ rest) = (ending, rest) := by
  cases h with
  | lineFeed => rfl
  | pair => rfl
  | loneReturn hl hr =>
    rw [List.singleton_append, lineEnd_return loneCr hr, if_pos hl]
  | endOfText => rfl

theorem comment_of_commentEnd {loneCr : Bool} {body ending rest : List Char} (hb : OneLine body)
    (h : CommentEnd loneCr ending rest) :
    comment loneCr ('#' :: (body ++ (ending ++ rest))) =
      ⟨'#' :: (body ++ ending), rest, .ok none⟩ := by
  have hr : EndsRun (fun c => !isLineTerminator c) (ending ++ rest).head? := by
    cases h <;> simp [isLineTerminator]
  have htake := takeWhile_run hb.not_isLineTerminator hr
  have hdrop := dropWhile_run hb.not_isLineTerminator hr
  simp [comment, htake, hdrop, lineEnd_of_commentEnd h]

/-- The text behind a comment that ends before a carriage return which may not end a line. -/
def StrayReturn (loneCr : Bool) (rest : List Char) : Prop :=
  loneCr = false ∧ ∃ more, rest = '\r' :: more ∧ more.head? ≠ some '\n'

private theorem lineEnd_cases (loneCr : Bool) {text : List Char}
    (ht : EndsRun (fun c => !isLineTerminator c) text.head?) :
    CommentEnd loneCr (lineEnd loneCr text).1 (lineEnd loneCr text).2 ∨
      lineEnd loneCr text = ([], text) ∧ StrayReturn loneCr text := by
  cases text with
  | nil => exact .inl .endOfText
  | cons c rest =>
    have hcases : c = '\n' ∨ c = '\r' :=
      or_iff_not_imp_left.mpr (by simpa [isLineTerminator] using ht)
    rcases hcases with rfl | rfl
    · exact .inl (.lineFeed rest)
    · by_cases hr : rest.head? = some '\n'
      · obtain ⟨more, rfl⟩ := List.head?_eq_some_iff.mp hr
        exact .inl (.pair more)
      · rw [lineEnd_return loneCr hr]
        cases loneCr with
        | false => exact .inr ⟨rfl, rfl, rest, rfl, hr⟩
        | true => exact .inl (.loneReturn rfl hr)

/-- A comment is whole unless it ends before a stray carriage return. -/
theorem comment_cases (loneCr : Bool) (text : List Char) :
    ∃ body ending rest, text = body ++ (ending ++ rest) ∧ OneLine body ∧
      comment loneCr ('#' :: text) = ⟨'#' :: (body ++ ending), rest, .ok none⟩ ∧
      (CommentEnd loneCr ending rest ∨ ending = [] ∧ StrayReturn loneCr rest) := by
  let body := text.takeWhile fun c => !isLineTerminator c
  let tail := text.dropWhile fun c => !isLineTerminator c
  have hend : EndsRun (fun c => !isLineTerminator c) tail.head? := endsRun_dropWhile _ text
  refine ⟨body, (lineEnd loneCr tail).1, (lineEnd loneCr tail).2, ?_, ?_, ?_, ?_⟩
  · rw [lineEnd_append, List.takeWhile_append_dropWhile]
  · intro c hc
    have h := List.mem_takeWhile_imp hc
    simpa [isLineTerminator] using h
  · simp [comment, body, tail]
  · rcases lineEnd_cases loneCr hend with h | ⟨h, hs⟩
    · exact .inl h
    · rw [h]
      exact .inr ⟨rfl, hs⟩

end Scan

end Lexing
