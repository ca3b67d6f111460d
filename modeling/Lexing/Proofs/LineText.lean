import Lexing.Proofs.Lines
import Lexing.Proofs.Partition

/-!
# The text of a line

A line goes from its start to its terminator, which does not belong to it, or to the end of the
text. The search around an offset finds that line from any offset but one: under the lenient rule
the two characters of a pair are taken for two line ends if the search begins between them.
-/

namespace Lexing

/-- Whether a line is over where the text goes on like this, with a terminator. -/
def beginsLineEnd (loneCr : Bool) : List Char → Bool
  | [] => false
  | c :: text => c == '\n' || (c == '\r' && (text.head? == some '\n' || loneCr))

/-- The line that a text begins with, up to its terminator or the end of the text. -/
def firstLine (loneCr : Bool) : List Char → List Char
  | [] => []
  | c :: text => if beginsLineEnd loneCr (c :: text) then [] else c :: firstLine loneCr text

/-- The line that holds an offset, without its terminator. -/
def lineText (loneCr : Bool) (source : List Char) (n : Nat) : List Char :=
  firstLine loneCr (source.drop (lineStart loneCr source n))

/-- An offset stands between a carriage return and a line feed. -/
def SplitsPair (source : List Char) (n : Nat) : Prop :=
  ∃ m, n = m + 1 ∧ source[m]? = some '\r' ∧ source[n]? = some '\n'

section FirstLine

variable {loneCr : Bool}

theorem firstLine_cons {c : Char} {text : List Char}
    (h : beginsLineEnd loneCr (c :: text) = false) :
    firstLine loneCr (c :: text) = c :: firstLine loneCr text := by
  rw [firstLine, if_neg (by simp [h])]

theorem return_not_mem_firstLine (text : List Char) : '\r' ∉ firstLine true text := by
  induction text with
  | nil => exact List.not_mem_nil
  | cons c text ih =>
    rw [firstLine]
    split
    · exact List.not_mem_nil
    · rename_i hc
      have hne : c ≠ '\r' := by
        rintro rfl
        simp [beginsLineEnd] at hc
      simp [hne.symm, ih]

/-- Where a line holds no carriage return, the two rules give the same line. -/
theorem firstLine_lenient {text : List Char} (h : '\r' ∉ firstLine false text) :
    firstLine true text = firstLine false text := by
  induction text with
  | nil => rfl
  | cons c text ih =>
    by_cases hover : beginsLineEnd false (c :: text) = true
    · have hlenient : beginsLineEnd true (c :: text) = true := by
        simp only [beginsLineEnd, Bool.or_false, Bool.or_true, Bool.and_true, Bool.or_eq_true,
          Bool.and_eq_true] at hover ⊢
        exact hover.imp_right And.left
      rw [firstLine, firstLine, if_pos hlenient, if_pos hover]
    · rw [Bool.not_eq_true] at hover
      rw [firstLine_cons hover, List.mem_cons, not_or] at h
      have hlenient : beginsLineEnd true (c :: text) = false := by
        have hreturn : (c == '\r') = false := by simpa using Ne.symm h.1
        simpa [beginsLineEnd, hreturn] using hover
      rw [firstLine_cons hlenient, firstLine_cons hover, ih h.2]

end FirstLine

section Search

variable {loneCr : Bool}

/-- What the search for the end of a line has found, less a carriage return before a line feed. -/
private def trimmed (loneCr found : Bool) (line : List Char) : List Char :=
  if !loneCr && found && line.getLast? == some '\r' then line.dropLast else line

private theorem trimmed_cons (found : Bool) (c : Char) {line : List Char} (h : line ≠ []) :
    trimmed loneCr found (c :: line) = c :: trimmed loneCr found line := by
  rw [trimmed, trimmed, List.getLast?_cons_of_ne_nil h, List.dropLast_cons_of_ne_nil h]
  split <;> rfl

private theorem trimmed_singleton {found : Bool} {c : Char}
    (h : c = '\r' → found = true → loneCr = true) : trimmed loneCr found [c] = [c] := by
  rw [trimmed, if_neg]
  simp only [Bool.and_eq_true, Bool.not_eq_true', List.getLast?_singleton, beq_iff_eq,
    Option.some.injEq]
  rintro ⟨⟨hl, hf⟩, hc⟩
  rw [h hc hf] at hl
  cases hl

private theorem eq_pair_of_begins {c : Char} {text : List Char}
    (hstop : Text.stopsLine loneCr c = false) (hover : beginsLineEnd loneCr (c :: text) = true) :
    loneCr = false ∧ c = '\r' ∧ ∃ more, text = '\n' :: more := by
  simp only [Text.stopsLine, Bool.or_eq_false_iff, Bool.and_eq_false_iff] at hstop
  simp only [beginsLineEnd, hstop.1, Bool.false_or, Bool.and_eq_true, Bool.or_eq_true, beq_iff_eq]
    at hover
  obtain ⟨rfl, hnext⟩ := hover
  have hl : loneCr = false := by simpa using hstop.2
  subst hl
  exact ⟨rfl, rfl, List.head?_eq_some_iff.mp (by simpa using hnext)⟩

private theorem firstLine_eq_trimmed (text : List Char) :
    firstLine loneCr text = trimmed loneCr (text.any (Text.stopsLine loneCr))
      (text.takeWhile fun c => !Text.stopsLine loneCr c) := by
  induction text with
  | nil => simp [firstLine, trimmed]
  | cons c text ih =>
    by_cases hstop : Text.stopsLine loneCr c = true
    · have hover : beginsLineEnd loneCr (c :: text) = true := by
        simp only [Text.stopsLine, Bool.or_eq_true, Bool.and_eq_true] at hstop
        simp only [beginsLineEnd, Bool.or_eq_true, Bool.and_eq_true]
        tauto
      simp [firstLine, hover, hstop, trimmed]
    · rw [Bool.not_eq_true] at hstop
      simp only [List.takeWhile_cons, List.any_cons, hstop, Bool.not_false, Bool.false_or, if_true]
      by_cases hover : beginsLineEnd loneCr (c :: text) = true
      · -- the search passes the carriage return of a pair and stops at the line feed
        obtain ⟨rfl, rfl, more, rfl⟩ := eq_pair_of_begins hstop hover
        simp [firstLine, hover, trimmed, Text.stopsLine]
      · rw [Bool.not_eq_true] at hover
        rw [firstLine_cons hover, ih]
        by_cases hrun : text.takeWhile (fun c => !Text.stopsLine loneCr c) = []
        · rw [hrun, trimmed_singleton]
          · simp [trimmed]
          · rintro rfl hfound
            cases text with
            | nil => cases hfound
            | cons d more =>
              cases loneCr with
              | true => rfl
              | false =>
                obtain rfl : d = '\n' := by simpa [Text.stopsLine] using hrun
                cases hover
        · rw [trimmed_cons _ c hrun]

theorem lastRun_concat (stops : Char → Bool) (text : List Char) (c : Char) :
    Text.lastRun stops (text ++ [c]) = if stops c then [] else Text.lastRun stops text ++ [c] := by
  rw [Text.lastRun, List.reverse_append, List.reverse_singleton, List.singleton_append,
    List.takeWhile_cons]
  cases stops c <;> simp [Text.lastRun]

theorem not_stops_of_mem_lastRun {stops : Char → Bool} {text : List Char} {c : Char}
    (hc : c ∈ Text.lastRun stops text) : (!stops c) = true := by
  rw [Text.lastRun, List.mem_reverse] at hc
  exact List.mem_takeWhile_imp (p := fun c => !stops c) hc

private theorem lineAt_eq_firstLine (source : List Char) (n : Nat) :
    Text.lineAt loneCr source n = firstLine loneCr
      (Text.lastRun (Text.stopsLine loneCr) (source.take n) ++ source.drop n) := by
  have hrun : ∀ c ∈ Text.lastRun (Text.stopsLine loneCr) (source.take n),
      (!Text.stopsLine loneCr c) = true := fun c hc => not_stops_of_mem_lastRun hc
  have hfound : (Text.lastRun (Text.stopsLine loneCr) (source.take n)).any
      (Text.stopsLine loneCr) = false := by
    rw [List.any_eq_false]
    intro c hc
    simpa using hrun c hc
  rw [firstLine_eq_trimmed, List.takeWhile_append_of_pos hrun, List.any_append, hfound,
    Bool.false_or]
  rfl

end Search

section Lines

variable {loneCr : Bool} {source : List Char} {n : Nat}

theorem not_splitsPair_of_ne (h : source[n]? ≠ some '\n') : ¬ SplitsPair source n :=
  fun ⟨_, _, _, hfeed⟩ => h hfeed

theorem not_splitsPair_of_begins (h : beginsLineEnd loneCr (source.drop n) = false) :
    ¬ SplitsPair source n := by
  apply not_splitsPair_of_ne
  intro hfeed
  rw [← List.head?_drop, List.head?_eq_some_iff] at hfeed
  obtain ⟨text, htext⟩ := hfeed
  rw [htext] at h
  simp [beginsLineEnd] at h

private theorem lastRun_append_drop (hn : n ≤ source.length)
    (hp : loneCr = true → ¬ SplitsPair source n) :
    Text.lastRun (Text.stopsLine loneCr) (source.take n) ++ source.drop n =
      source.drop (lineStart loneCr source n) := by
  induction n with
  | zero => rfl
  | succ n ih =>
    have hlt : n < source.length := hn
    have hget : source[n]? = some source[n] := List.getElem?_eq_getElem hlt
    rw [List.take_succ_eq_append_getElem hlt, lastRun_concat, lineStart_succ]
    by_cases hstop : Text.stopsLine loneCr source[n] = true
    · have hends : EndsLineAt loneCr source n := by
        rw [EndsLineAt, hget]
        simp only [Text.stopsLine, Bool.or_eq_true, Bool.and_eq_true, beq_iff_eq] at hstop
        rcases hstop with hfeed | ⟨hl, hreturn⟩
        · exact .inl (congrArg some hfeed)
        · refine .inr ⟨congrArg some hreturn, ?_, hl⟩
          intro hfeed
          exact hp hl ⟨n, rfl, hget.trans (congrArg some hreturn), hfeed⟩
      rw [if_pos hstop, if_pos hends, List.nil_append]
    · have hne : source[n] ≠ '\n' := by
        intro hfeed
        simp [Text.stopsLine, hfeed] at hstop
      have hgoes : ¬ EndsLineAt loneCr source n := by
        rw [EndsLineAt, hget]
        rintro (hfeed | ⟨hreturn, -, hl⟩)
        · exact hne (Option.some.inj hfeed)
        · simp [Text.stopsLine, Option.some.inj hreturn, hl] at hstop
      have hpair : ¬ SplitsPair source n := not_splitsPair_of_ne (by simpa [hget] using hne)
      rw [if_neg hstop, if_neg hgoes, List.append_assoc, List.singleton_append,
        ← List.drop_eq_getElem_cons hlt]
      exact ih hlt.le fun _ => hpair

/-- The search around an offset finds the line that holds it. -/
theorem lineAt_eq_lineText (hn : n ≤ source.length) (hp : loneCr = true → ¬ SplitsPair source n) :
    Text.lineAt loneCr source n = lineText loneCr source n := by
  rw [lineAt_eq_firstLine, lastRun_append_drop hn hp, lineText]

/-- No terminator begins on a line before an offset that the line holds. -/
theorem lineText_eq_append (hn : n ≤ source.length) (hp : ¬ SplitsPair source n) :
    lineText loneCr source n =
      between source (lineStart loneCr source n) n ++ firstLine loneCr (source.drop n) := by
  induction n with
  | zero => rfl
  | succ n ih =>
    have hlt : n < source.length := hn
    have hget : source[n]? = some source[n] := List.getElem?_eq_getElem hlt
    by_cases hends : EndsLineAt loneCr source n
    · rw [lineText, lineStart_succ, if_pos hends, between_self, List.nil_append]
    · have hne : source[n] ≠ '\n' := by
        intro hfeed
        exact hends (.inl (hget.trans (congrArg some hfeed)))
      have hgoes : beginsLineEnd loneCr (source[n] :: source.drop (n + 1)) = false := by
        by_contra hover
        simp only [beginsLineEnd, List.head?_drop, Bool.not_eq_false, Bool.or_eq_true,
          Bool.and_eq_true, beq_iff_eq, hne, false_or] at hover
        obtain ⟨hreturn, hnext⟩ := hover
        rw [← Option.some_inj, ← hget] at hreturn
        by_cases hfeed : source[n + 1]? = some '\n'
        · exact hp ⟨n, rfl, hreturn, hfeed⟩
        · exact hends (.inr ⟨hreturn, hfeed, hnext.resolve_left hfeed⟩)
      have hline := ih hlt.le (not_splitsPair_of_ne (by simpa [hget] using hne))
      rw [List.drop_eq_getElem_cons hlt, firstLine_cons hgoes] at hline
      rw [lineText, lineStart_succ, if_neg hends, between_succ source (lineStart_le _ _ _) hlt,
        List.append_assoc, List.singleton_append]
      exact hline

theorem length_between_lineStart (hn : n ≤ source.length) :
    (between source (lineStart loneCr source n) n).length = columnNumber loneCr source n - 1 := by
  have hle := lineStart_le loneCr source n
  rw [between, List.length_take, List.length_drop, columnNumber]
  omega

/-- The column of an offset counts the characters of its line that are before it. -/
theorem take_lineText (hn : n ≤ source.length) (hp : ¬ SplitsPair source n) :
    (lineText loneCr source n).take (columnNumber loneCr source n - 1) =
      between source (lineStart loneCr source n) n := by
  rw [lineText_eq_append hn hp, ← length_between_lineStart hn, List.take_left]

/-- A character that belongs to no terminator is on its line, at its column. -/
theorem getElem?_lineText (hn : n < source.length)
    (hb : beginsLineEnd loneCr (source.drop n) = false) :
    columnNumber loneCr source n ≤ (lineText loneCr source n).length ∧
      (lineText loneCr source n)[columnNumber loneCr source n - 1]? = source[n]? := by
  have hp := not_splitsPair_of_begins hb
  have hlen : (between source (lineStart loneCr source n) n).length =
      columnNumber loneCr source n - 1 := length_between_lineStart hn.le
  rw [List.drop_eq_getElem_cons hn] at hb
  have hpos : 1 ≤ columnNumber loneCr source n := Nat.le_add_left 1 _
  rw [lineText_eq_append hn.le hp, List.drop_eq_getElem_cons hn, firstLine_cons hb]
  constructor
  · rw [List.length_append, List.length_cons]
    omega
  · rw [← hlen, List.getElem?_append_right (Nat.le_refl _), Nat.sub_self,
      List.getElem?_eq_getElem hn]
    rfl

end Lines

/-- A line goes from one offset of a text to another, where its terminator begins or the text ends. -/
structure IsLine (loneCr : Bool) (source : List Char) (first last : Nat) : Prop where
  le : first ≤ last
  le_length : last ≤ source.length
  goes_on : ∀ i, first ≤ i → i < last → beginsLineEnd loneCr (source.drop i) = false
  ends : last = source.length ∨ beginsLineEnd loneCr (source.drop last) = true

/-- The offset of a text that is nearest to an integer. -/
def nearestOffset (source : List Char) (offset : Int) : Nat :=
  min offset.toNat source.length

/-- The search begins between the two characters of a pair that it takes for two line ends. -/
def InsidePair (loneCr : Bool) (source : List Char) (n : Nat) : Prop :=
  loneCr = true ∧ SplitsPair source n

section Offsets

variable {loneCr : Bool} {source : List Char} {n : Nat}

theorem exists_isLine (loneCr : Bool) {first : Nat} (h : first ≤ source.length) :
    ∃ last, IsLine loneCr source first last ∧
      firstLine loneCr (source.drop first) = between source first last := by
  generalize htext : source.drop first = text
  induction text generalizing first with
  | nil =>
    have hend : source.length ≤ first := List.drop_eq_nil_iff.mp htext
    refine ⟨first, ⟨Nat.le_refl _, h, fun i hi hlt => ?_, .inl (by omega)⟩, ?_⟩
    · omega
    · rw [firstLine, between_self]
  | cons c text ih =>
    have hlt : first < source.length := List.length_lt_of_drop_ne_nil (by simp [htext])
    by_cases hover : beginsLineEnd loneCr (c :: text) = true
    · refine ⟨first, ⟨Nat.le_refl _, h, fun i hi hlt => ?_, .inr (by rw [htext, hover])⟩, ?_⟩
      · omega
      · rw [firstLine, if_pos hover, between_self]
    · rw [Bool.not_eq_true] at hover
      have hdrop : source.drop (first + 1) = text := by
        rw [← List.drop_drop, htext, List.drop_one, List.tail_cons]
      obtain ⟨last, ⟨hle, hlen, hgoes, hends⟩, hline⟩ := ih hlt hdrop
      refine ⟨last, ⟨Nat.le_of_succ_le hle, hlen, ?_, hends⟩, ?_⟩
      · intro i hi hil
        rcases Nat.lt_or_eq_of_le hi with hbehind | rfl
        · exact hgoes i hbehind hil
        · rw [htext, hover]
      · rw [firstLine_cons hover, hline,
          between_of_drop_append source (htext.trans (show _ = [c] ++ text from rfl)) hle]
        rfl

theorem EndsLineAt.begins (h : EndsLineAt loneCr source n) :
    beginsLineEnd loneCr (source.drop n) = true := by
  have hahead {c : Char} (hc : source[n]? = some c) : ∃ text, source.drop n = c :: text :=
    List.head?_eq_some_iff.mp (List.head?_drop.trans hc)
  rcases h with hfeed | ⟨hreturn, -, hl⟩
  · obtain ⟨text, htext⟩ := hahead hfeed
    simp [htext, beginsLineEnd]
  · obtain ⟨text, htext⟩ := hahead hreturn
    simp [htext, beginsLineEnd, hl]

/-- All offsets of a line are counted as the same line. -/
theorem IsLine.lineNumber_eq {first last i : Nat} (h : IsLine loneCr source first last)
    (hi : first ≤ i) (hl : i ≤ last) :
    lineNumber loneCr source i = lineNumber loneCr source first := by
  induction i, hi using Nat.le_induction with
  | base => rfl
  | succ i hi ih =>
    have hgoes : ¬ EndsLineAt loneCr source i := by
      intro hends
      have hover := hends.begins
      rw [h.goes_on i hi hl] at hover
      exact Bool.false_ne_true hover
    rw [lineNumber_succ, if_neg hgoes, ih (Nat.le_of_succ_le hl)]

theorem lineNumber_lineStart :
    lineNumber loneCr source (lineStart loneCr source n) = lineNumber loneCr source n := by
  induction n with
  | zero => rfl
  | succ n ih =>
    rw [lineStart_succ, lineNumber_succ]
    split
    · rw [lineNumber_succ, if_pos ‹_›]
    · exact ih

/-- Offsets that are counted as the same line have the same start of their line. -/
theorem lineStart_eq_of_lineNumber_eq {m n : Nat}
    (h : lineNumber loneCr source m = lineNumber loneCr source n) :
    lineStart loneCr source m = lineStart loneCr source n := by
  have hinit {m n : Nat} (hle : m ≤ n) :
      lineEnds loneCr source m <+: lineEnds loneCr source n := by
    obtain ⟨k, rfl⟩ := Nat.exists_eq_add_of_le hle
    rw [lineEnds, lineEnds, List.range_add, List.filter_append]
    exact List.prefix_append _ _
  have hends : lineEnds loneCr source m = lineEnds loneCr source n := by
    have hlen := Nat.add_left_cancel h
    rcases Nat.le_total m n with hle | hle
    · exact (hinit hle).eq_of_length hlen
    · exact ((hinit hle).eq_of_length hlen.symm).symm
  rw [lineStart, hends, lineStart]

theorem lineAt_nearestOffset (offset : Int) : Text.lineAt loneCr source offset =
    Text.lineAt loneCr source (nearestOffset source offset) := by
  rcases Nat.le_total offset.toNat source.length with hle | hle
  · rw [nearestOffset, Nat.min_eq_left hle]
    rfl
  · rw [nearestOffset, Nat.min_eq_right hle, Text.lineAt, Text.lineAt, Int.toNat_natCast,
      List.drop_eq_nil_of_le hle, List.take_of_length_le hle, List.drop_length, List.take_length]

/-- Inside a pair the lenient search stops at once on either side. -/
theorem lineAt_of_splitsPair (h : SplitsPair source n) : Text.lineAt true source n = [] := by
  obtain ⟨m, rfl, hreturn, hfeed⟩ := h
  obtain ⟨hlt, hget⟩ := List.getElem?_eq_some_iff.mp hreturn
  obtain ⟨text, hahead⟩ := List.head?_eq_some_iff.mp (List.head?_drop.trans hfeed)
  have hbehind : Text.lastRun (Text.stopsLine true) (source.take (m + 1)) = [] := by
    rw [List.take_succ_eq_append_getElem hlt, lastRun_concat, hget]
    rfl
  simp [Text.lineAt, hbehind, hahead, Text.stopsLine]

/-- The search around an offset, wherever it is, finds the line on which a cursor stands there, from
the column that the cursor has counted back to up to the terminator. So it finds one text from all
offsets of a line. From inside a pair the lenient search finds nothing instead. -/
theorem lineAt_finds_line (loneCr : Bool) (source : List Char) (offset : Int) :
    let o := nearestOffset source offset
    let here := (cursorAt loneCr source o).position
    ∃ last, IsLine loneCr source (o - (here.column - 1)) last ∧
      (∀ i, o - (here.column - 1) ≤ i → i ≤ last →
        (cursorAt loneCr source i).position.line = here.line) ∧
      (¬ InsidePair loneCr source o →
        Text.lineAt loneCr source offset = between source (o - (here.column - 1)) last ∧
        ∀ other, (cursorAt loneCr source (nearestOffset source other)).position.line = here.line →
          ¬ InsidePair loneCr source (nearestOffset source other) →
            Text.lineAt loneCr source other = Text.lineAt loneCr source offset) ∧
      (InsidePair loneCr source o → Text.lineAt loneCr source offset = []) := by
  intro o here
  have hnear (offset : Int) : nearestOffset source offset ≤ source.length := Nat.min_le_right _ _
  have hline (offset : Int) (hp : ¬ InsidePair loneCr source (nearestOffset source offset)) :
      Text.lineAt loneCr source offset =
        lineText loneCr source (nearestOffset source offset) := by
    rw [lineAt_nearestOffset, lineAt_eq_lineText (hnear offset) fun hl hpair => hp ⟨hl, hpair⟩]
  have hhere : here = ⟨o, lineNumber loneCr source o, columnNumber loneCr source o⟩ :=
    position_cursorAt (hnear offset)
  have hstart : o - (here.column - 1) = lineStart loneCr source o := by
    rw [hhere]
    exact Nat.sub_sub_self (lineStart_le _ _ _)
  obtain ⟨last, hlast, htext⟩ :=
    exists_isLine loneCr ((lineStart_le loneCr source o).trans (hnear offset))
  rw [hstart]
  refine ⟨last, hlast, ?_, ?_, ?_⟩
  · intro i hi hl
    rw [position_cursorAt (hl.trans hlast.le_length), hhere]
    exact (hlast.lineNumber_eq hi hl).trans lineNumber_lineStart
  · intro hp
    refine ⟨(hline offset hp).trans htext, ?_⟩
    intro other hsame hpother
    rw [position_cursorAt (hnear other), hhere] at hsame
    rw [hline other hpother, hline offset hp, lineText, lineText,
      lineStart_eq_of_lineNumber_eq hsame]
  · rintro ⟨rfl, hpair⟩
    rw [lineAt_nearestOffset, lineAt_of_splitsPair hpair]

/-- The strict rule keeps a lone carriage return on the line, and finds the line from inside the pair
behind it as from any other of its offsets. -/
theorem strict_line_from_inside_pair :
    (cursorAt false "\na\r\r\nb".toList 4).position = ⟨4, 2, 4⟩ ∧
      SplitsPair "\na\r\r\nb".toList 4 ∧ ¬ InsidePair false "\na\r\r\nb".toList 4 ∧
      (∃ last, IsLine false "\na\r\r\nb".toList 1 last ∧
        Text.lineAt false "\na\r\r\nb".toList 4 = between "\na\r\r\nb".toList 1 last) ∧
      Text.lineAt false "\na\r\r\nb".toList 1 = Text.lineAt false "\na\r\r\nb".toList 4 ∧
      InsidePair true "\na\r\r\nb".toList 4 ∧ Text.lineAt true "\na\r\r\nb".toList 4 = [] := by
  have hpair : SplitsPair "\na\r\r\nb".toList 4 := ⟨3, rfl, rfl, rfl⟩
  have hstrict (n : Nat) : ¬ InsidePair false "\na\r\r\nb".toList n := fun h => nomatch h.1
  obtain ⟨last, hlast, -, hfound, -⟩ := lineAt_finds_line false "\na\r\r\nb".toList 4
  obtain ⟨htext, hsame⟩ := hfound (hstrict _)
  obtain ⟨-, -, -, -, hlenient⟩ := lineAt_finds_line true "\na\r\r\nb".toList 4
  exact ⟨by decide, hpair, hstrict 4, ⟨last, hlast, htext⟩, hsame 1 (by decide) (hstrict _),
    ⟨rfl, hpair⟩, hlenient ⟨rfl, hpair⟩⟩

/-- The cursor stands on the first line still, whose text the lenient search does not find there. -/
theorem line_lost_inside_pair :
    (cursorAt true "a\r\nb".toList 2).position = ⟨2, 1, 3⟩ ∧
      (cursorAt true "a\r\nb".toList 1).position.line = 1 ∧
      IsLine true "a\r\nb".toList 0 1 ∧ between "a\r\nb".toList 0 1 = ['a'] ∧
      Text.lineAt true "a\r\nb".toList 1 = ['a'] ∧ Text.lineAt true "a\r\nb".toList 2 = [] := by
  have hline : IsLine true "a\r\nb".toList 0 1 := by
    refine ⟨by decide, by decide, ?_, .inr rfl⟩
    intro i _ hi
    obtain rfl : i = 0 := Nat.lt_one_iff.mp hi
    rfl
  exact ⟨by decide, by decide, hline, rfl, by decide, by decide⟩

end Offsets

end Lexing
