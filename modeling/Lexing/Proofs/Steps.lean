import Lexing.Proofs.Lines
import Lexing.Step

/-!
# Runs of single steps

Whatever a step looks at, scans or fails at, all it does to the cursor is to pass some of the
characters ahead. So a run of steps goes through the text in one direction, and its cursor never
loses count of lines and columns.
-/

namespace Lexing

namespace Cursor

/-- A cursor stands in a text where its offset says, on the line and at the column of that offset. -/
structure Stands (loneCr : Bool) (source : List Char) (cursor : Cursor) : Prop where
  source_eq : cursor.source = source
  offset_le : cursor.position.offset ≤ source.length
  ahead_eq : cursor.ahead = source.drop cursor.position.offset
  line_eq : cursor.position.line = lineNumber loneCr source cursor.position.offset
  column_eq : cursor.position.column = columnNumber loneCr source cursor.position.offset

section Step

variable (options : Options) (cursor : Cursor)

private theorem settle_eq_skip (scan : Scan (Option Lexeme)) :
    (cursor.settle options scan).2 = cursor.skip options.loneCr scan.taken.length := by
  unfold settle
  cases scan.outcome <;> rfl

private theorem settleNonempty_eq_skip (scan : Char → List Char → Scan (Option Lexeme)) :
    ∃ n, (cursor.settleNonempty options scan).2 = cursor.skip options.loneCr n := by
  unfold settleNonempty
  split
  · exact ⟨0, rfl⟩
  · exact ⟨_, settle_eq_skip options cursor _⟩

private theorem tokenize_eq_skip :
    ∃ n, (cursor.tokenize options).2 = cursor.skip options.loneCr n := by
  unfold tokenize
  dsimp only
  rw [foldl_pass]
  split
  · exact ⟨_, rfl⟩
  · rename_i stop _
    exact ⟨_ + stop.taken.length, (skip_add options.loneCr cursor _ _).symm⟩

/-- A step passes some of the characters ahead, whether or not it fails. -/
theorem perform_eq_skip (step : Step) :
    ∃ n, (cursor.perform options step).2 = cursor.skip options.loneCr n := by
  cases step with
  | current => exact ⟨0, rfl⟩
  | peek distance => exact ⟨0, rfl⟩
  | advance => exact ⟨1, rfl⟩
  | atEnd => exact ⟨0, rfl⟩
  | skipBlanks => exact ⟨_, rfl⟩
  | skipComment => exact ⟨_, rfl⟩
  | digits => exact ⟨_, rfl⟩
  | next => exact settleNonempty_eq_skip options cursor _
  | word => exact ⟨_, settle_eq_skip options cursor _⟩
  | operator => exact ⟨_, settle_eq_skip options cursor _⟩
  | number => exact ⟨_, settle_eq_skip options cursor _⟩
  | string => exact ⟨_, settle_eq_skip options cursor _⟩
  | punctuation => exact settleNonempty_eq_skip options cursor _
  | endOfLine => exact ⟨_, settle_eq_skip options cursor _⟩
  | tokenize => exact tokenize_eq_skip options cursor

end Step

end Cursor

section Run

variable (options : Options) (source : List Char)

theorem stands_cursorAt {n : Nat} (hn : n ≤ source.length) :
    (cursorAt options.loneCr source n).Stands options.loneCr source := by
  have hposition : (cursorAt options.loneCr source n).position =
      ⟨n, lineNumber options.loneCr source n, columnNumber options.loneCr source n⟩ :=
    position_cursorAt hn
  constructor
  · exact source_cursorAt options.loneCr source n
  all_goals rw [hposition]
  · exact hn
  · exact ahead_cursorAt options.loneCr source n

/-- A step from an offset of a text leads to one that is not before it. -/
theorem perform_cursorAt {n : Nat} (hn : n ≤ source.length) (step : Step) :
    ∃ m, n ≤ m ∧ m ≤ source.length ∧
      ((cursorAt options.loneCr source n).perform options step).2 =
        cursorAt options.loneCr source m := by
  obtain ⟨k, hk⟩ := (cursorAt options.loneCr source n).perform_eq_skip options step
  rw [skip_cursorAt] at hk
  rcases Nat.le_total (n + k) source.length with hlen | hlen
  · exact ⟨n + k, Nat.le_add_right n k, hlen, hk⟩
  · exact ⟨source.length, hn, Nat.le_refl _, hk.trans (cursorAt_of_length_le _ _ hlen)⟩

/-- A run of steps visits offsets of the text in increasing order. -/
theorem performAll_cursorAt {n : Nat} (hn : n ≤ source.length) (steps : List Step) :
    ∃ offsets : List Nat, (n :: offsets).IsChain (· ≤ ·) ∧ (∀ m ∈ offsets, m ≤ source.length) ∧
      ((cursorAt options.loneCr source n).performAll options steps).map (·.2) =
        offsets.map (cursorAt options.loneCr source) := by
  induction steps generalizing n with
  | nil => exact ⟨[], .singleton n, by simp, rfl⟩
  | cons step steps ih =>
    obtain ⟨m, hnm, hm, hstep⟩ := perform_cursorAt options source hn step
    obtain ⟨offsets, hchain, hlen, hrun⟩ := ih hm
    refine ⟨m :: offsets, .cons_cons hnm hchain, ?_, ?_⟩
    · exact List.forall_mem_cons.mpr ⟨hm, hlen⟩
    · rw [Cursor.performAll, List.map_cons, List.map_cons, hstep, hrun]

/-- Whatever steps are taken from the start of a text, the cursor goes forward within it and stands
on the line and at the column of its offset. -/
theorem performAll_stands (steps : List Step) :
    let cursors := Cursor.start source ::
      ((Cursor.start source).performAll options steps).map (·.2)
    (∀ cursor ∈ cursors, cursor.Stands options.loneCr source) ∧
      cursors.Pairwise fun earlier later => earlier.position.offset ≤ later.position.offset := by
  intro cursors
  obtain ⟨offsets, hchain, hlen, hrun⟩ :=
    performAll_cursorAt options source (Nat.zero_le source.length) steps
  have hcursors : cursors = (0 :: offsets).map (cursorAt options.loneCr source) := by
    rw [List.map_cons, ← hrun]
    rfl
  have hall : ∀ m ∈ 0 :: offsets, m ≤ source.length :=
    List.forall_mem_cons.mpr ⟨Nat.zero_le _, hlen⟩
  rw [hcursors]
  constructor
  · intro cursor hcursor
    obtain ⟨m, hm, rfl⟩ := List.mem_map.mp hcursor
    exact stands_cursorAt options source (hall m hm)
  · rw [List.pairwise_map]
    apply (List.isChain_iff_pairwise.mp hchain).imp_of_mem
    intro m k hm hk hle
    rwa [offset_cursorAt _ _ (hall m hm), offset_cursorAt _ _ (hall k hk)]

/-- Between the characters of a pair the line goes on, and a scan that fails moves the cursor. -/
example : ((Cursor.start "ab\r\n|= c".toList).performAll { }
      [.word, .advance, .next, .next, .tokenize]).map (fun step =>
        (step.2.position.offset, step.2.position.line, step.2.position.column)) =
    [(2, 1, 3), (3, 1, 4), (4, 2, 1), (6, 2, 3), (8, 2, 5)] := by
  decide +kernel

end Run

end Lexing
