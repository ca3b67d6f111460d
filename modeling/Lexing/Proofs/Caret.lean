import Lexing.Proofs.Failure
import Lexing.Proofs.LineText

/-!
# Where a diagnostic points

A text that has no token list has a diagnostic about the lexeme that could not be read. It quotes
the line on which that lexeme begins, with a caret under the first character that was not read.
-/

namespace Lexing

namespace Fault

variable (options : Options) (fault : Fault) (location : Location) (line : List Char)

theorem sourceLine_diagnose : (fault.diagnose options location line).sourceLine = some line := by
  cases fault <;> rfl

end Fault

namespace Diagnostic

end Diagnostic

section Failing

variable {options : Options} {source : List Char}

/-- Where a terminator begins it is the next lexeme. -/
theorem next_of_beginsLineEnd {c : Char} {text : List Char}
    (h : beginsLineEnd options.loneCr (c :: text) = true) :
    ∃ taken rest, Scan.next options c text = (Scan.plain .endOfLine taken rest).map some := by
  simp only [beginsLineEnd, Bool.or_eq_true, Bool.and_eq_true, beq_iff_eq] at h
  rcases h with rfl | ⟨rfl, hnext⟩
  · rw [Scan.next_of_isLineTerminator options text (by decide), Scan.endOfLine_lineFeed]
    exact ⟨_, _, rfl⟩
  · rw [Scan.next_of_isLineTerminator options text (by decide)]
    by_cases hfeed : text.head? = some '\n'
    · obtain ⟨more, rfl⟩ := List.head?_eq_some_iff.mp hfeed
      exact ⟨_, _, congrArg _ (Scan.endOfLine_pair _ more)⟩
    · rw [Scan.endOfLine_return _ hfeed, if_pos (hnext.resolve_left hfeed)]
      exact ⟨_, _, rfl⟩

/-- The cursor's own diagnostic names the place of its offset and quotes the line that holds it. -/
theorem diagnose_cursorAt {n : Nat} (hn : n ≤ source.length)
    (hp : options.loneCr = true → ¬ SplitsPair source n) (fault : Fault) :
    let d := (cursorAt options.loneCr source n).diagnose options fault
    d.location = some ⟨options.filename, lineNumber options.loneCr source n,
      columnNumber options.loneCr source n⟩ ∧
    d.sourceLine = some (lineText options.loneCr source n) := by
  constructor
  · rw [Cursor.diagnose, Fault.location_diagnose, Cursor.location, position_cursorAt hn]
  · rw [Cursor.diagnose, Fault.sourceLine_diagnose, Cursor.currentLine, source_cursorAt,
      offset_cursorAt _ _ hn, lineAt_eq_lineText hn hp]

end Failing

end Lexing
