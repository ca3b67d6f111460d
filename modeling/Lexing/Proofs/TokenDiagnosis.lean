import Lexing.Proofs.Caret
import Lexing.Proofs.MaximalMunch

/-!
# Diagnostics about tokens

A diagnostic about a token has the place of the scan's own diagnostics at the first character of the
token. The line that it quotes is cut by the lenient rule, whatever the rule of the scan, so it is the
token's line unless the strict rule has left a carriage return there.
-/

namespace Lexing

section Pairs

variable {options : Options} {source rest : List Char}

/-- Only strings and line ends hold carriage returns. -/
theorem Reads.cases_of_return {found : Lexeme} {following : Option Char}
    (h : Reads options found following) (hmem : '\r' ∈ found.text) :
    (found.kind = .stringLiteral ∧ ∃ body, found.text = '"' :: (body ++ ['"'])) ∨
      (found.text, found.kind) ∈ marks options.loneCr ∧ EndsRun (joinsMark found.text) following := by
  have hminus : '\r' ≠ '-' := by decide
  have hdigit : isDigit '\r' = false := by decide
  cases h with
  | @word c text _ hc ht _ =>
    have hall : ∀ d ∈ c :: text, isWordChar d = true :=
      List.forall_mem_cons.mpr ⟨isWordChar_of_isWordStart hc, ht⟩
    exact absurd (hall _ hmem) (by decide)
  | integer hs hd hv _ _ =>
    obtain rfl := Scan.intLiteral_eq_ok hd.1 hv
    simp [hs.not_mem hminus, hd.not_mem hdigit] at hmem
  | float hs hd hf hv _ =>
    obtain ⟨value, rfl⟩ := Scan.floatLiteral_eq_ok hv
    simp [hs.not_mem hminus, hd.not_mem hdigit, hf.not_mem hdigit] at hmem
  | string _ => exact .inl ⟨rfl, _, rfl⟩
  | mark hm hr => exact .inr ⟨hm, hr⟩

theorem Reads.following_ne_lineFeed {found : Lexeme} {following : Option Char}
    (h : Reads options found following) (hlast : found.text.getLast? = some '\r') :
    following ≠ some '\n' := by
  rcases h.cases_of_return (List.mem_of_getLast? hlast) with ⟨-, body, hbody⟩ | ⟨hm, hr⟩
  · change found.text = ('"' :: body) ++ ['"'] at hbody
    rw [hbody, List.getLast?_concat] at hlast
    cases hlast
  · have hjoins : ∀ entry ∈ marks options.loneCr, entry.1.getLast? = some '\r' →
        joinsMark entry.1 '\n' = true := by
      cases options.loneCr <;> decide
    intro hfeed
    subst hfeed
    have hjoin := hjoins _ hm hlast
    rw [(endsRun_some _ '\n').mp hr] at hjoin
    cases hjoin

theorem Piece.Before.following_ne_lineFeed {piece : Piece} (h : piece.Before options rest)
    (hlast : piece.text.getLast? = some '\r') : rest.head? ≠ some '\n' := by
  cases h with
  | blank _ hb =>
    obtain rfl := Option.some.inj hlast
    exact absurd hb (by decide)
  | @comment body ending _ hb he =>
    have hplain : ('#' :: body).getLast? ≠ some '\r' := by
      intro hreturn
      rcases List.mem_cons.mp (List.mem_of_getLast? hreturn) with hhash | hmem
      · exact absurd hhash (by decide)
      · exact (hb _ hmem).2 rfl
    change (('#' :: body) ++ ending).getLast? = some '\r' at hlast
    rw [List.getLast?_append] at hlast
    rcases he with hend | ⟨rfl, -⟩
    · cases hend with
      | lineFeed => cases hlast
      | pair => cases hlast
      | loneReturn _ hr => exact hr
      | endOfText => exact absurd hlast hplain
    · exact absurd hlast hplain
  | lexeme hr => exact hr.following_ne_lineFeed hlast

theorem Piece.Before.text_ne_nil {piece : Piece} (h : piece.Before options rest) :
    piece.text ≠ [] := by
  cases h with
  | blank _ _ => exact List.cons_ne_nil _ _
  | comment _ _ => exact List.cons_ne_nil _ _
  | lexeme hr => exact hr.spelled.ne_nil

/-- No piece of a split ends between the two characters of a pair. -/
theorem not_splitsPair_of_split {done later : List Piece} {stop : Option Stop}
    (h : Split.ofText options source = ⟨done ++ later, stop⟩) :
    extent done ≤ source.length ∧ ¬ SplitsPair source (extent done) := by
  rcases done.eq_nil_or_concat' with rfl | ⟨front, piece, rfl⟩
  · refine ⟨Nat.zero_le _, ?_⟩
    rintro ⟨m, hm, -, -⟩
    cases hm
  · rw [List.append_assoc] at h
    obtain ⟨ahead, rfl, ha⟩ := Split.ofText_append h
    obtain ⟨rest, rfl, hbefore, -⟩ := Split.ofText_eq_cons ha
    have hextent : extent (front ++ [piece]) = extent front + piece.text.length := by
      simp [extent]
    rw [hextent]
    refine ⟨by simp [extent], ?_⟩
    rintro ⟨m, hm, hreturn, hfeed⟩
    have hpos : 0 < piece.text.length := List.length_pos_iff.mpr hbefore.text_ne_nil
    obtain rfl : m = extent front + (piece.text.length - 1) := by omega
    rw [extent, List.getElem?_append_right (Nat.le_add_right _ _), Nat.add_sub_cancel_left,
      List.getElem?_append_left (Nat.sub_one_lt_of_lt hpos), ← List.getLast?_eq_getElem?] at hreturn
    rw [extent, ← List.length_append, ← List.append_assoc, ← List.head?_drop, List.drop_left]
      at hfeed
    exact hbefore.following_ne_lineFeed hreturn hfeed

theorem beginsLineEnd_of_reads {found : Lexeme}
    (h : Reads options found rest.head?) (hk : found.kind ≠ .endOfLine) :
    beginsLineEnd options.loneCr (found.text ++ rest) = false := by
  obtain ⟨c, text, he, -, hn⟩ := Scan.next_of_reads h
  rw [he]
  by_contra hover
  rw [Bool.not_eq_false] at hover
  obtain ⟨taken, after, hplain⟩ := next_of_beginsLineEnd hover
  have hfound := congrArg Scan.outcome (hn.symm.trans hplain)
  obtain rfl := Option.some.inj (Except.ok.inj hfound)
  exact hk rfl

end Pairs

section Rules

variable {source : List Char} {n : Nat}

/-- Where no carriage return stands before an offset on its line, both rules begin that line there. -/
theorem lineStart_lenient (hn : n ≤ source.length)
    (h : '\r' ∉ between source (lineStart false source n) n) :
    lineStart true source n = lineStart false source n := by
  induction n with
  | zero => rfl
  | succ n ih =>
    have hlt : n < source.length := hn
    rw [lineStart_succ, lineStart_succ]
    rw [lineStart_succ] at h
    by_cases hfeed : source[n]? = some '\n'
    · rw [if_pos (.inl hfeed), if_pos (.inl hfeed)]
    · have hstrict : ¬ EndsLineAt false source n := by simp [EndsLineAt, hfeed]
      rw [if_neg hstrict, between_succ source (lineStart_le _ _ _) hlt, List.mem_append,
        not_or] at h
      have hlenient : ¬ EndsLineAt true source n := by
        rintro (hends | ⟨hreturn, -, -⟩)
        · exact hfeed hends
        · rw [List.getElem?_eq_getElem hlt] at hreturn
          exact h.2 (by simp [Option.some.inj hreturn])
      rw [if_neg hstrict, if_neg hlenient, ih hlt.le h.1]

/-- The two rules give the same line exactly if the strict one leaves no carriage return on it. -/
theorem lineText_lenient_iff (hn : n ≤ source.length) (hp : ¬ SplitsPair source n) :
    lineText true source n = lineText false source n ↔ '\r' ∉ lineText false source n := by
  constructor
  · intro h
    rw [← h]
    exact return_not_mem_firstLine _
  · intro h
    rw [lineText_eq_append hn hp, List.mem_append, not_or] at h
    rw [lineText_eq_append hn hp, lineText_eq_append hn hp, lineStart_lenient hn h.1,
      firstLine_lenient h.2]

end Rules

section Tokens

variable {options : Options} {source : List Char} {tokens : List Token} {t : Token}

/-- A token is made by a cursor that stands at its offset, outside the pairs of the text. -/
theorem token_of_tokenize (h : tokenize options source = .ok tokens) (ht : t ∈ tokens) :
    ∃ n found, n ≤ source.length ∧ ¬ SplitsPair source n ∧
      t = (cursorAt options.loneCr source n).token options source found := by
  obtain ⟨pieces, hs, rfl⟩ := (tokenize_eq_ok_iff options source).mp h
  rcases mem_layOut options source ht with ⟨done, found, later, rfl, rfl⟩ | rfl
  · obtain ⟨hlen, hpair⟩ := not_splitsPair_of_split hs
    rw [Nat.zero_add]
    exact ⟨extent done, found, hlen, hpair, rfl⟩
  · rw [← List.append_nil pieces] at hs
    obtain ⟨hlen, hpair⟩ := not_splitsPair_of_split hs
    rw [Nat.zero_add]
    exact ⟨extent pieces, _, hlen, hpair, rfl⟩

/-- The diagnostic about a token quotes the line that the lenient rule finds there. -/
theorem ofToken_cursorAt {n : Nat} (hn : n ≤ source.length) (hp : ¬ SplitsPair source n)
    (found : Lexeme) (kind : DiagnosticKind) (message : String) (hint : Option String) :
    let d := Diagnostic.ofToken kind ((cursorAt options.loneCr source n).token options source found)
      message hint
    d.location = some ⟨options.filename, lineNumber options.loneCr source n,
      columnNumber options.loneCr source n⟩ ∧
    d.sourceLine = some (lineText true source n) := by
  constructor
  · simp only [Diagnostic.ofToken, Token.location, Cursor.token, position_cursorAt hn]
  · simp only [Diagnostic.ofToken, Token.sourceLine, Cursor.token, position_cursorAt hn,
      lineAt_eq_lineText hn fun _ => hp]

/-- A diagnostic about a token has the place of the scan's own diagnostics there, and quotes the line
that they quote exactly if the strict rule has left no carriage return on it. That line holds the
token at its column. -/
theorem ofToken_points (h : tokenize options source = .ok tokens) (ht : t ∈ tokens)
    (kind : DiagnosticKind) (message : String) (hint : Option String) :
    let d := Diagnostic.ofToken kind t message hint
    let line := lineNumber options.loneCr source t.start
    let column := columnNumber options.loneCr source t.start
    let text := Text.lineAt options.loneCr source t.offset
    (∀ fault, let own := (cursorAt options.loneCr source t.start).diagnose options fault
      d.location = own.location ∧ own.sourceLine = some text) ∧
    d.location = some ⟨options.filename, line, column⟩ ∧
    (d.sourceLine = some text ↔ options.loneCr = true ∨ '\r' ∉ text) ∧
    text.take (column - 1) = between source (t.start - (column - 1)) t.start ∧
    (t.kind ≠ .endOfLine → t.kind ≠ .endOfInput →
      t.text ≠ [] ∧ column ≤ text.length ∧ text[column - 1]? = t.text.head?) := by
  obtain ⟨n, found, hn, hp, he⟩ := token_of_tokenize h ht
  have hstart : t.start = n := by rw [he, start_token options source hn]
  have hoffset : t.offset = n := by rw [he, Cursor.token, offset_cursorAt _ _ hn]
  have htext : Text.lineAt options.loneCr source n = lineText options.loneCr source n :=
    lineAt_eq_lineText hn fun _ => hp
  obtain ⟨hlocation, hquoted⟩ := ofToken_cursorAt hn hp found kind message hint
  rw [← he] at hlocation hquoted
  rw [hstart, hoffset, htext]
  intro d line column text
  refine ⟨?_, hlocation, ?_, ?_, ?_⟩
  · intro fault
    obtain ⟨hown, hline⟩ := diagnose_cursorAt hn (fun _ => hp) fault
    exact ⟨hlocation.trans hown.symm, hline⟩
  · rw [hquoted, Option.some_inj]
    cases hl : options.loneCr with
    | true => simp [text, hl]
    | false => simpa [text, hl] using lineText_lenient_iff hn hp
  · have hbegin : n - (column - 1) = lineStart options.loneCr source n :=
      Nat.sub_sub_self (lineStart_le _ _ _)
    rw [hbegin]
    exact take_lineText hn hp
  · intro hline hinput
    obtain ⟨-, rest, hdrop, hr⟩ := reads_of_tokenize h ht hinput
    have hover := beginsLineEnd_of_reads hr hline
    obtain ⟨c, more, hc⟩ := List.exists_cons_of_ne_nil hr.spelled.ne_nil
    rw [hstart, hc] at hdrop
    rw [hc, ← hdrop] at hover
    obtain ⟨hcolumn, hcaret⟩ := getElem?_lineText (lt_length_of_drop hdrop) hover
    refine ⟨hr.spelled.ne_nil, hcolumn, hcaret.trans ?_⟩
    rw [← List.head?_drop, hdrop, hc]
    rfl

/-- Behind a pair in a string the strict rule begins a line too, and the diagnostic quotes it. -/
theorem points_behind_pair_in_string :
    ∃ tokens t, tokenize { loneCr := false } "\"a\r\nb\" y".toList = .ok tokens ∧ t ∈ tokens ∧
      t.kind ≠ .endOfLine ∧ t.kind ≠ .endOfInput ∧ t.text = ['y'] ∧
      (Diagnostic.ofToken .general t "unused" none).sourceLine = some "b\" y".toList ∧
      "b\" y".toList[columnNumber false "\"a\r\nb\" y".toList t.start - 1]? = some 'y' := by
  obtain ⟨tokens, h, hf⟩ := exists_tokens
    (show (tokenize { loneCr := false } "\"a\r\nb\" y".toList).toOption.map
      (·[1]?.map fun t => (t.kind, t.text, t.offset)) = some (some (.identifier, ['y'], 7)) by
        decide +kernel)
  obtain ⟨t, ht, he⟩ := Option.map_eq_some_iff.mp hf
  simp only [Prod.mk.injEq] at he
  obtain ⟨hkind, htext, hoffset⟩ := he
  have hmem := List.mem_of_getElem? ht
  have hline : t.kind ≠ .endOfLine := by simp [hkind]
  have hinput : t.kind ≠ .endOfInput := by simp [hkind]
  have hquoted : Text.lineAt false "\"a\r\nb\" y".toList t.offset = "b\" y".toList := by
    rw [hoffset]
    decide
  obtain ⟨-, -, hsource, -, hcaret⟩ := ofToken_points h hmem .general "unused" none
  obtain ⟨-, -, hcolumn⟩ := hcaret hline hinput
  rw [hquoted] at hsource hcolumn
  rw [htext] at hcolumn
  exact ⟨tokens, t, h, hmem, hline, hinput, htext, hsource.mpr (.inr (by decide)), hcolumn⟩

/-- The strict rule takes the text for one line, of which the token's diagnostic shows the end. -/
theorem quotes_less_behind_return :
    ∃ t, (tokenize { loneCr := false } "\"a\rb\" x".toList).toOption.bind (·[1]?) = some t ∧
      Text.lineAt false "\"a\rb\" x".toList t.offset = "\"a\rb\" x".toList ∧
      (Diagnostic.ofToken .general t "m" none).sourceLine = some "b\" x".toList := by
  have hquoted : ((tokenize { loneCr := false } "\"a\rb\" x".toList).toOption.bind (·[1]?)).map
      (fun t => (t.offset, (Diagnostic.ofToken .general t "m" none).sourceLine)) =
        some (6, some "b\" x".toList) := by decide +kernel
  obtain ⟨t, ht, he⟩ := Option.map_eq_some_iff.mp hquoted
  obtain ⟨hoffset, hsource⟩ := Prod.mk.inj he
  refine ⟨t, ht, ?_, hsource⟩
  rw [hoffset]
  decide

end Tokens

end Lexing
