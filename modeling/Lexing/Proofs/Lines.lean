import Lexing.Proofs.Placement

/-!
# Lines and columns

Which characters of a text end a line, and the line and the column that this gives to every offset.
A cursor counts lines and columns one character at a time, looking at the character behind the one
it passes. Its position is always the one that the text as a whole gives to its offset.
-/

namespace Lexing

/-- A line ends with the character at an index. -/
def EndsLineAt (loneCr : Bool) (source : List Char) (i : Nat) : Prop :=
  source[i]? = some '\n' ∨
    source[i]? = some '\r' ∧ source[i + 1]? ≠ some '\n' ∧ loneCr = true

instance (loneCr : Bool) (source : List Char) (i : Nat) : Decidable (EndsLineAt loneCr source i) :=
  inferInstanceAs (Decidable (_ ∨ _))

/-- The indices before an offset at which a line ends, in increasing order. -/
def lineEnds (loneCr : Bool) (source : List Char) (n : Nat) : List Nat :=
  (List.range n).filter fun i => EndsLineAt loneCr source i

/-- The line of an offset begins behind the last line end before it, the first one with the text. -/
def lineStart (loneCr : Bool) (source : List Char) (n : Nat) : Nat :=
  (lineEnds loneCr source n).getLast?.elim 0 (· + 1)

/-- Lines count from one. -/
def lineNumber (loneCr : Bool) (source : List Char) (n : Nat) : Nat :=
  1 + (lineEnds loneCr source n).length

/-- Columns count from one. -/
def columnNumber (loneCr : Bool) (source : List Char) (n : Nat) : Nat :=
  n - lineStart loneCr source n + 1

section Counting

variable (loneCr : Bool) (source : List Char) (n : Nat)

theorem lineEnds_succ : lineEnds loneCr source (n + 1) =
    lineEnds loneCr source n ++ if EndsLineAt loneCr source n then [n] else [] := by
  simp only [lineEnds, List.range_succ, List.filter_append, List.filter_singleton]
  by_cases hn : EndsLineAt loneCr source n <;> simp [hn]

theorem lineStart_succ : lineStart loneCr source (n + 1) =
    if EndsLineAt loneCr source n then n + 1 else lineStart loneCr source n := by
  rw [lineStart, lineEnds_succ]
  by_cases hn : EndsLineAt loneCr source n <;> simp [hn, lineStart]

theorem lineNumber_succ : lineNumber loneCr source (n + 1) =
    if EndsLineAt loneCr source n then lineNumber loneCr source n + 1
    else lineNumber loneCr source n := by
  rw [lineNumber, lineEnds_succ]
  by_cases hn : EndsLineAt loneCr source n <;> simp [hn, lineNumber, Nat.add_assoc]

theorem lineStart_le : lineStart loneCr source n ≤ n := by
  induction n with
  | zero => exact Nat.le_refl 0
  | succ n ih =>
    rw [lineStart_succ]
    split <;> omega

theorem columnNumber_succ : columnNumber loneCr source (n + 1) =
    if EndsLineAt loneCr source n then 1 else columnNumber loneCr source n + 1 := by
  have hle := lineStart_le loneCr source n
  rw [columnNumber, lineStart_succ, columnNumber]
  split <;> omega

variable {loneCr source n}

theorem endsLine_iff (hn : n < source.length) :
    Position.endsLine loneCr source[n] source[n + 1]? = true ↔ EndsLineAt loneCr source n := by
  rw [EndsLineAt, List.getElem?_eq_getElem hn]
  simp [Position.endsLine, and_assoc]

/-- The position that a cursor has counted up is the one that the whole text gives to its offset. -/
theorem position_cursorAt (hn : n ≤ source.length) : (cursorAt loneCr source n).position =
    ⟨n, lineNumber loneCr source n, columnNumber loneCr source n⟩ := by
  induction n with
  | zero => rfl
  | succ n ih =>
    have hlt : n < source.length := hn
    rw [position_cursorAt_succ hlt, ih hlt.le]
    simp only [Position.after, endsLine_iff hlt, lineNumber_succ, columnNumber_succ]
    split <;> rfl

end Counting

end Lexing
