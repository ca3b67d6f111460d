import Lexing.Proofs.Failure
import Lexing.Proofs.LineText
import Lexing.Proofs.Locality

/-!
# Tokenizing line by line

A text of whole lines with a second text behind it has the tokens of the one and then those of the
other, which keep their columns and come as many characters and lines later as the first text has.
-/

namespace Lexing

/-- The number of line ends in a text. -/
def lineCount (loneCr : Bool) (text : List Char) : Nat :=
  (lineEnds loneCr text text.length).length

/-- A position so many characters and lines further on, at the same column. -/
def Position.moved (offset lines : Nat) (position : Position) : Position :=
  ⟨position.offset + offset, position.line + lines, position.column⟩

/-- A position in a text that begins at a place of another one, counted on from that place. -/
def Position.plus (here position : Position) : Position :=
  ⟨here.offset + position.offset, here.line + (position.line - 1),
    if position.line = 1 then here.column + (position.column - 1) else position.column⟩

/-- A token of another text, so many characters and lines further on, at the same column. -/
def Token.moved (source : List Char) (offset lines : Int) (t : Token) : Token :=
  { t with offset := t.offset + offset, line := t.line + lines, source }

/-- The diagnostic of a place so many lines further on, at the same column. -/
def Diagnostic.moved (lines : Int) (d : Diagnostic) : Diagnostic :=
  { d with location := d.location.map fun place => { place with line := place.line + lines } }

section Positions

variable {loneCr : Bool} {text : List Char} (more : List Char)

theorem Position.after_eq_after_none {c : Char} {following : Option Char} (position : Position)
    (h : c = '\r' → following ≠ some '\n') :
    position.after loneCr c following = position.after loneCr c none := by
  have hends : endsLine loneCr c following = endsLine loneCr c none := by
    by_cases hc : c = '\r'
    · have hne : (following != some '\n') = true := bne_iff_ne.mpr (h hc)
      rw [endsLine, endsLine, hne]
      rfl
    · have hne : (c == '\r') = false := beq_eq_false_iff_ne.mpr hc
      rw [endsLine, endsLine, hne]
      rfl
  rw [after, after, hends]

theorem Position.after_plus (here : Position) {position : Position} (hl : 1 ≤ position.line)
    (hc : 1 ≤ position.column) (c : Char) (following : Option Char) :
    (here.plus position).after loneCr c following =
      here.plus (position.after loneCr c following) := by
  unfold after
  split
  · simp only [plus, mk.injEq, Nat.add_assoc, true_and]
    rw [if_neg (by omega)]
    omega
  · simp only [plus, mk.injEq, Nat.add_assoc, true_and]
    split <;> omega

theorem one_le_position (loneCr : Bool) {text : List Char} {n : Nat} (hn : n ≤ text.length) :
    1 ≤ (cursorAt loneCr text n).position.line ∧ 1 ≤ (cursorAt loneCr text n).position.column := by
  rw [position_cursorAt hn]
  exact ⟨Nat.le_add_right 1 _, Nat.le_add_left 1 _⟩

/-- The positions behind a place are those of the text that begins there, counted on from it. -/
theorem position_add (loneCr : Bool) (source : List Char) {o n : Nat} (h : o + n ≤ source.length) :
    (cursorAt loneCr source (o + n)).position =
      (cursorAt loneCr source o).position.plus (cursorAt loneCr (source.drop o) n).position := by
  induction n with
  | zero => rfl
  | succ n ih =>
    have hlt : n < (source.drop o).length := by
      rw [List.length_drop]
      omega
    obtain ⟨hl, hc⟩ := one_le_position loneCr hlt.le
    have hlong : o + n < source.length := h
    rw [← Nat.add_assoc, position_cursorAt_succ hlong, ih hlong.le, Position.after_plus _ hl hc,
      position_cursorAt_succ hlt, List.getElem_drop, List.getElem?_drop, Nat.add_assoc]

/-- More text behind a text does not move the places in it, unless they come to share a pair. -/
theorem position_append_left (h : ¬ SplitsPair (text ++ more) text.length) {n : Nat}
    (hn : n ≤ text.length) :
    (cursorAt loneCr (text ++ more) n).position = (cursorAt loneCr text n).position := by
  induction n with
  | zero => rfl
  | succ n ih =>
    have hlt : n < text.length := hn
    have hlong : n < (text ++ more).length := by
      rw [List.length_append]
      omega
    rw [position_cursorAt_succ hlt, position_cursorAt_succ hlong, ih hlt.le,
      List.getElem_append_left hlt]
    rcases Nat.lt_or_eq_of_le hn with hinside | hend
    · rw [List.getElem?_append_left hinside]
    · -- only a carriage return at the end of the text would depend on what follows
      rw [List.getElem?_eq_none hend.ge, hend]
      apply Position.after_eq_after_none
      intro hreturn hfeed
      refine h ⟨n, hend.symm, ?_, hfeed⟩
      rw [List.getElem?_append_left hlt, List.getElem?_eq_getElem hlt, hreturn]

theorem Terminated.not_splitsPair (h : Terminated text) :
    ¬ SplitsPair (text ++ more) text.length := by
  rintro ⟨m, hm, hreturn, -⟩
  rw [List.getElem?_append_left (by omega), h.getElem?_last hm.symm] at hreturn
  cases hreturn

theorem position_end (h : Terminated text) : (cursorAt loneCr text text.length).position =
    ⟨text.length, lineCount loneCr text + 1, 1⟩ := by
  have hcolumn : columnNumber loneCr text text.length = 1 := by
    obtain ⟨n, hn⟩ := Nat.exists_eq_add_one_of_ne_zero (List.length_pos_iff.mpr h.ne_nil).ne'
    have hends : EndsLineAt loneCr text n := .inl (h.getElem?_last hn.symm)
    rw [hn, columnNumber_succ, if_pos hends]
  rw [position_cursorAt (Nat.le_refl _), hcolumn, lineNumber, Nat.add_comm, lineCount]

theorem position_append_right (h : Terminated text) {n : Nat} (hn : n ≤ more.length) :
    (cursorAt loneCr (text ++ more) (text.length + n)).position =
      (cursorAt loneCr more n).position.moved text.length (lineCount loneCr text) := by
  obtain ⟨hl, hc⟩ := one_le_position loneCr hn
  rw [position_add _ _ (by simpa using hn), List.drop_left,
    position_append_left more (h.not_splitsPair more) (Nat.le_refl _), position_end h]
  simp only [Position.plus, Position.moved, Position.mk.injEq]
  split <;> omega

end Positions

section Lines

variable {loneCr : Bool} {text : List Char} (more : List Char)

private theorem lastRun_append (h : Terminated text) :
    Text.lastRun (Text.stopsLine loneCr) (text ++ more) =
      Text.lastRun (Text.stopsLine loneCr) more := by
  have hends : EndsRun (fun c => !Text.stopsLine loneCr c) text.reverse.head? := by
    rw [List.head?_reverse, h]
    simp [Text.stopsLine]
  rw [Text.lastRun, List.reverse_append, takeWhile_append_of_endsRun _ hends, Text.lastRun]

/-- The line around an offset behind a text of whole lines does not reach into that text. -/
theorem lineAt_append_right (h : Terminated text) (n : Nat) :
    Text.lineAt loneCr (text ++ more) (text.length + n : Nat) = Text.lineAt loneCr more n := by
  simp only [Text.lineAt, Int.toNat_natCast, List.take_length_add_append,
    List.drop_length_add_append, lastRun_append _ h]

theorem lineAt_append_left (h : Terminated text) {n : Nat} (hn : n < text.length) :
    Text.lineAt loneCr (text ++ more) n = Text.lineAt loneCr text n := by
  have hfeed : Text.stopsLine loneCr '\n' = true := by simp [Text.stopsLine]
  have hahead := h.drop hn
  have hfound : (text.drop n).any (Text.stopsLine loneCr) = true :=
    List.any_eq_true.mpr ⟨'\n', List.mem_of_getLast? hahead, hfeed⟩
  have hrun := hahead.dropWhile (p := fun c => !Text.stopsLine loneCr c) (by simp [hfeed])
  obtain ⟨htake, -⟩ := run_append hrun.ne_nil more
  simp only [Text.lineAt, Int.toNat_natCast, List.take_append_of_le_length hn.le,
    List.drop_append_of_le_length hn.le, htake, List.any_append, hfound, Bool.true_or]

end Lines

section Tokens

variable {options : Options} {source source' : List Char}

theorem Cursor.token_moved {cursor cursor' : Cursor} {offset lines : Nat}
    (h : cursor'.position = cursor.position.moved offset lines) (found : Lexeme) :
    cursor'.token options source' found =
      (cursor.token options source found).moved source' offset lines := by
  simp [Cursor.token, Token.moved, Position.moved, h]

/-- Where the places of a text are those of another one moved, so are the tokens. -/
theorem layOut_moved {n n' offset lines : Nat} {pieces : List Piece}
    (h : ∀ m ≤ extent pieces, (cursorAt options.loneCr source' (n' + m)).position =
      (cursorAt options.loneCr source (n + m)).position.moved offset lines) :
    (cursorAt options.loneCr source' n').layOut options source' pieces =
      ((cursorAt options.loneCr source n).layOut options source pieces).map
        (Token.moved source' offset lines) := by
  symm
  apply layOut_map
  intro m hm found
  exact (Cursor.token_moved (h m hm) found).symm

/-- The tokens of pieces come before the end of input and before the tokens of what follows. -/
theorem layOut_append (options : Options) (source : List Char) (n : Nat) (done : List Piece) :
    ∃ front, (cursorAt options.loneCr source n).layOut options source done =
        front ++ [endToken options source (n + extent done)] ∧
      ∀ later, (cursorAt options.loneCr source n).layOut options source (done ++ later) =
        front ++ (cursorAt options.loneCr source (n + extent done)).layOut options source later := by
  induction done generalizing n with
  | nil => exact ⟨[], rfl, fun later => rfl⟩
  | cons piece done ih =>
    obtain ⟨front, hdone, hlater⟩ := ih (n + piece.text.length)
    rw [extent_cons, ← Nat.add_assoc]
    cases piece with
    | blank c =>
      refine ⟨front, ?_, ?_⟩
      · rw [layOut_blank]
        exact hdone
      · intro later
        rw [List.cons_append, layOut_blank]
        exact hlater later
    | comment body =>
      refine ⟨front, ?_, ?_⟩
      · rw [layOut_comment]
        exact hdone
      · intro later
        rw [List.cons_append, layOut_comment]
        exact hlater later
    | lexeme found =>
      refine ⟨(cursorAt options.loneCr source n).token options source found :: front, ?_, ?_⟩
      · rw [layOut_lexeme]
        exact congrArg (List.cons _) hdone
      · intro later
        rw [List.cons_append, layOut_lexeme]
        exact congrArg (List.cons _) (hlater later)

theorem extent_of_split {pieces : List Piece}
    (h : Split.ofText options source = ⟨pieces, none⟩) : extent pieces = source.length := by
  rw [← List.append_nil pieces] at h
  obtain ⟨rest, rfl, hrest⟩ := Split.ofText_append h
  rw [Split.eq_nil_of_ofText hrest, List.append_nil, extent]

end Tokens

section Diagnostics

variable {options : Options} {text : List Char} (more : List Char)

theorem Fault.diagnose_moved (fault : Fault) (filename : String) (line lines column : Int)
    (shown : List Char) : fault.diagnose options ⟨filename, line + lines, column⟩ shown =
      (fault.diagnose options ⟨filename, line, column⟩ shown).moved lines := by
  cases fault <;> rfl

theorem diagnose_append_left (h : Terminated text) {n : Nat} (hn : n < text.length)
    (fault : Fault) : (cursorAt options.loneCr (text ++ more) n).diagnose options fault =
      (cursorAt options.loneCr text n).diagnose options fault := by
  simp only [Cursor.diagnose, Cursor.location, Cursor.currentLine, source_cursorAt,
    position_append_left more (h.not_splitsPair more) hn.le, offset_cursorAt _ _ hn.le,
    lineAt_append_left more h hn]

theorem diagnose_append_right (h : Terminated text) {n : Nat} (hn : n ≤ more.length)
    (fault : Fault) :
    (cursorAt options.loneCr (text ++ more) (text.length + n)).diagnose options fault =
      ((cursorAt options.loneCr more n).diagnose options fault).moved
        (lineCount options.loneCr text) := by
  have hlong : text.length + n ≤ (text ++ more).length := by
    rw [List.length_append]
    omega
  rw [Cursor.diagnose, Cursor.diagnose, Cursor.location, Cursor.location, Cursor.currentLine,
    Cursor.currentLine, source_cursorAt, source_cursorAt, offset_cursorAt _ _ hlong,
    offset_cursorAt _ _ hn, lineAt_append_right more h, position_append_right more h hn,
    ← Fault.diagnose_moved]
  rfl

end Diagnostics

section Tokenize

variable {options : Options} {a : List Char} (b : List Char)

theorem Split.ofText_whole_lines {pieces : List Piece} (ha : Terminated a)
    (hs : Split.ofText options a = ⟨pieces, none⟩) : Split.ofText options (a ++ b) =
      ⟨pieces ++ (Split.ofText options b).pieces, (Split.ofText options b).stop⟩ := by
  rw [Split.ofText_followed b (.inr ha), hs]
  · rfl
  · simp [hs]

/-- The tokens of whole lines stay where they are, and those behind them begin a line. -/
theorem layOut_whole_lines (options : Options) {pieces : List Piece} (ha : Terminated a)
    (hp : extent pieces = a.length) :
    ∃ front, (cursorAt options.loneCr a 0).layOut options a pieces =
        front ++ [endToken options a a.length] ∧
      ∀ later, extent later ≤ b.length →
        (cursorAt options.loneCr (a ++ b) 0).layOut options (a ++ b) (pieces ++ later) =
          front.map (fun t => { t with source := a ++ b }) ++
            ((cursorAt options.loneCr b 0).layOut options b later).map
              (Token.moved (a ++ b) a.length (lineCount options.loneCr a)) := by
  obtain ⟨front, hfront, -⟩ := layOut_append options a 0 pieces
  obtain ⟨front', hfront', hlater⟩ := layOut_append options (a ++ b) 0 pieces
  rw [Nat.zero_add, hp] at hfront hfront' hlater
  have hstay : ∀ m ≤ extent pieces, (cursorAt options.loneCr (a ++ b) (0 + m)).position =
      (cursorAt options.loneCr a (0 + m)).position.moved 0 0 := by
    intro m hm
    rw [Nat.zero_add, position_append_left b (ha.not_splitsPair b) (hm.trans hp.le)]
    rfl
  have htokens := layOut_moved hstay
  rw [hfront, hfront', List.map_append] at htokens
  obtain ⟨rfl, -⟩ := List.append_inj' htokens rfl
  refine ⟨front, hfront, ?_⟩
  intro later hl
  have hmove : ∀ m ≤ extent later, (cursorAt options.loneCr (a ++ b) (a.length + m)).position =
      (cursorAt options.loneCr b (0 + m)).position.moved a.length (lineCount options.loneCr a) := by
    intro m hm
    rw [Nat.zero_add, position_append_right b ha (hm.trans hl)]
  rw [hlater, layOut_moved hmove]
  congr 1
  apply List.map_congr_left
  intro t _
  simp [Token.moved]

theorem tokenize_error_behind {pieces : List Piece} {d : Diagnostic} (ha : Terminated a)
    (hs : Split.ofText options a = ⟨pieces, none⟩) (hb : tokenize options b = .error d) :
    tokenize options (a ++ b) = .error (d.moved (lineCount options.loneCr a)) := by
  obtain ⟨later, stop, hlater, rfl⟩ := (tokenize_eq_error_iff options b).mp hb
  obtain ⟨c, text, hdrop, -⟩ := next_of_split hlater
  have hsplit := Split.ofText_whole_lines b ha hs
  have hextent : extent (pieces ++ later) = a.length + extent later := by
    rw [← extent_of_split hs]
    simp [extent]
  rw [hlater] at hsplit
  refine (tokenize_eq_error_iff options (a ++ b)).mpr ⟨_, _, hsplit, ?_⟩
  rw [hextent, diagnose_append_right b ha (le_length_of_drop hdrop)]

/-- A fault within whole lines is found whatever is behind them, unless it is an open string. -/
theorem tokenize_error_within {d : Diagnostic} (ha : Terminated a)
    (h : tokenize options a = .error d) (hk : d.kind ≠ .unterminatedString) :
    tokenize options (a ++ b) = .error d := by
  obtain ⟨pieces, stop, hs, rfl⟩ := (tokenize_eq_error_iff options a).mp h
  have hfault : stop.fault ≠ .unterminatedString := by
    intro hfault
    apply hk
    rw [Cursor.diagnose, Fault.kind_diagnose, hfault]
    rfl
  have hsplit : Split.ofText options (a ++ b) =
      ⟨pieces, some { stop with rest := stop.rest ++ b }⟩ := by
    rw [Split.ofText_followed b (.inr ha), hs]
    · rfl
    · rw [hs]
      intro other hother
      obtain rfl := Option.some.inj hother
      exact hfault
  obtain ⟨c, text, hdrop, -⟩ := next_of_split hs
  exact (tokenize_eq_error_iff options (a ++ b)).mpr ⟨pieces, _, hsplit,
    diagnose_append_left b ha (lt_length_of_drop hdrop) stop.fault⟩

/-- A text of whole lines is tokenized without regard to what is behind it, and what is behind it as
if it stood alone, only so many characters and lines later. An open string alone goes on there. -/
theorem tokenize_append (ha : a.getLast? = some '\n') :
    (∀ tokens, tokenize options a = .ok tokens → ∃ front eof, tokens = front ++ [eof] ∧
      eof.kind = .endOfInput ∧
      ((∃ tokens, tokenize options (a ++ b) = .ok tokens) ↔
        ∃ tokens, tokenize options b = .ok tokens) ∧
      (∀ later, tokenize options b = .ok later → tokenize options (a ++ b) =
        .ok (front.map (fun t => { t with source := a ++ b }) ++
          later.map (Token.moved (a ++ b) a.length (eof.line - 1)))) ∧
      ∀ d, tokenize options b = .error d →
        tokenize options (a ++ b) = .error (d.moved (eof.line - 1))) ∧
    ∀ d, tokenize options a = .error d → d.kind ≠ .unterminatedString →
      tokenize options (a ++ b) = .error d := by
  constructor
  · intro tokens h
    obtain ⟨pieces, hs, rfl⟩ := (tokenize_eq_ok_iff options a).mp h
    obtain ⟨front, hfront, hlaid⟩ :=
      layOut_whole_lines b options ha (extent_of_split hs)
    have hlines : (endToken options a a.length).line - 1 = lineCount options.loneCr a := by
      simp [endToken, Cursor.token, position_end ha]
    have hok : ∀ later, tokenize options b = .ok later → tokenize options (a ++ b) =
        .ok (front.map (fun t => { t with source := a ++ b }) ++
          later.map (Token.moved (a ++ b) a.length (lineCount options.loneCr a))) := by
      intro later hb
      obtain ⟨more, hmore, rfl⟩ := (tokenize_eq_ok_iff options b).mp hb
      have hsplit := Split.ofText_whole_lines b ha hs
      rw [hmore] at hsplit
      rw [← hlaid more (extent_of_split hmore).le]
      exact (tokenize_eq_ok_iff options (a ++ b)).mpr ⟨_, hsplit, rfl⟩
    refine ⟨front, _, hfront, rfl, ?_, ?_, ?_⟩
    · constructor
      · rintro ⟨tokens, hboth⟩
        cases hb : tokenize options b with
        | ok later => exact ⟨later, rfl⟩
        | error d =>
          rw [tokenize_error_behind b ha hs hb] at hboth
          cases hboth
      · rintro ⟨later, hb⟩
        exact ⟨_, hok later hb⟩
    · rw [hlines]
      exact hok
    · intro d hb
      rw [hlines]
      exact tokenize_error_behind b ha hs hb
  · intro d h hk
    exact tokenize_error_within b ha h hk

/-- The terminator of a comment ends a line, and a string that begins behind it may hold another. -/
theorem append_behind_comment :
    (∃ front eof later, tokenize { } "x #1\r\n".toList = .ok (front ++ [eof]) ∧ eof.line = 2 ∧
      tokenize { } "\"y\n\" z".toList = .ok later ∧
      tokenize { } ("x #1\r\n".toList ++ "\"y\n\" z".toList) =
        .ok (front.map (fun t => { t with source := "x #1\r\n".toList ++ "\"y\n\" z".toList }) ++
          later.map (Token.moved ("x #1\r\n".toList ++ "\"y\n\" z".toList) 6 1))) ∧
    (∃ d, tokenize { } "\n |".toList = .error d ∧
      tokenize { } ("x #1\r\n".toList ++ "\n |".toList) = .error (d.moved 1)) ∧
    ∃ d, tokenize { } "$ \"\n".toList = .error d ∧ d.kind = .unrecognizedCharacter ['$'] ∧
      tokenize { } ("$ \"\n".toList ++ ['"']) = .error d := by
  have ha : "x #1\r\n".toList.getLast? = some '\n' := by decide
  obtain ⟨tokens, h, hlast⟩ := exists_tokens
    (show (tokenize { } "x #1\r\n".toList).toOption.map (·.getLast?.map (·.line)) =
      some (some 2) by decide +kernel)
  refine ⟨?_, ?_, ?_⟩
  · obtain ⟨later, hb, -⟩ := exists_tokens
      (show (tokenize { } "\"y\n\" z".toList).toOption.map List.length = some 3 by decide +kernel)
    obtain ⟨front, eof, rfl, -, -, hok, -⟩ := (tokenize_append "\"y\n\" z".toList ha).1 tokens h
    have hline : eof.line = 2 := by simpa using hlast
    have hboth := hok later hb
    rw [hline] at hboth
    exact ⟨front, eof, later, h, hline, hb, hboth⟩
  · obtain ⟨d, hb, -⟩ := exists_diagnostic
      (show (tokenize { } "\n |".toList).mapError (·.kind) = .error (.unrecognizedOperator ['|']) by
        decide +kernel)
    obtain ⟨front, eof, rfl, -, -, -, herror⟩ := (tokenize_append "\n |".toList ha).1 tokens h
    have hline : eof.line = 2 := by simpa using hlast
    have hboth := herror d hb
    rw [hline] at hboth
    exact ⟨d, hb, hboth⟩
  · obtain ⟨d, hd, hk⟩ := exists_diagnostic
      (show (tokenize { } "$ \"\n".toList).mapError (·.kind) =
        .error (.unrecognizedCharacter ['$']) by decide +kernel)
    have hsame := (tokenize_append ['"'] (a := "$ \"\n".toList) (by decide)).2 d hd (by simp [hk])
    exact ⟨d, hd, hk, hsame⟩

end Tokenize

end Lexing
