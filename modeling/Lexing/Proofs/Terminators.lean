import Lexing.Proofs.Restart

/-!
# Accounting for line terminators

Three things in a text hold line terminators: line ends, comments and strings. Each terminator is held
by one of them and counted there once, so the lines of the tokens tell how many there are.
-/

namespace Lexing

/-- The comments of a gap that end in a terminator, counted from inside a comment or from outside. -/
def closedComments : Bool → List Char → Nat
  | _, [] => 0
  | false, c :: gap => closedComments (c == '#') gap
  | true, c :: gap =>
    if isLineTerminator c then closedComments false gap + 1 else closedComments true gap

/-- The comments of a gap that end in a terminator. -/
def terminatedComments (gap : List Char) : Nat := closedComments false gap

/-- The texts between tokens, from an offset on. -/
def gaps (source : List Char) : Nat → List Token → List (List Char)
  | _, [] => []
  | n, t :: tokens => between source n t.start :: gaps source t.stop tokens

/-- The terminators in a lexeme: a line end is one, and a string holds those of its lines. -/
def Lexeme.terminators (loneCr : Bool) (found : Lexeme) : Nat :=
  if found.kind = .endOfLine then 1
  else if found.kind = .stringLiteral then lineCount loneCr found.text
  else 0

section Counting

variable {loneCr : Bool}

theorem closedComments_body {body : List Char} (hb : OneLine body) (text : List Char) :
    closedComments true (body ++ text) = closedComments true text := by
  induction body with
  | nil => rfl
  | cons c body ih =>
    obtain ⟨hc, hbody⟩ := List.forall_mem_cons.mp hb
    have hline : isLineTerminator c = false := by simp [isLineTerminator, hc]
    rw [List.cons_append, closedComments, hline, if_neg Bool.false_ne_true, ih hbody]

theorem terminatedComments_blank {c : Char} (hc : isBlank c = true) (gap : List Char) :
    terminatedComments ([c] ++ gap) = terminatedComments gap := by
  rcases isBlank_iff.mp hc with rfl | rfl <;> rfl

theorem terminatedComments_comment {body ending gap rest : List Char} (hb : OneLine body)
    (he : CommentEnd loneCr ending (gap ++ rest)) :
    terminatedComments ('#' :: (body ++ ending) ++ gap) =
      (if ending = [] then 0 else 1) + terminatedComments gap := by
  rw [List.cons_append, List.append_assoc]
  change closedComments true (body ++ (ending ++ gap)) = _
  rw [closedComments_body hb]
  generalize hrest : gap ++ rest = behind at he
  cases he with
  | lineFeed => exact Nat.add_comm _ _
  | pair => exact Nat.add_comm _ _
  | loneReturn _ _ => exact Nat.add_comm _ _
  | endOfText =>
    obtain ⟨rfl, -⟩ := List.append_eq_nil_iff.mp hrest
    rfl

theorem lineEnds_of_oneLine {text : List Char} (h : OneLine text) (n : Nat) :
    lineEnds loneCr text n = [] := by
  rw [lineEnds, List.filter_eq_nil_iff]
  intro i _
  simp only [decide_eq_true_eq]
  rintro (hfeed | ⟨hreturn, -, -⟩)
  · exact (h _ (List.mem_of_getElem? hfeed)).1 rfl
  · exact (h _ (List.mem_of_getElem? hreturn)).2 rfl

theorem lineCount_of_oneLine {text : List Char} (h : OneLine text) : lineCount loneCr text = 0 := by
  rw [lineCount, lineEnds_of_oneLine h, List.length_nil]

/-- The line behind a stretch of a text that breaks no pair. -/
theorem line_add_length {source text rest : List Char} {n : Nat} (hn : n ≤ source.length)
    (h : source.drop n = text ++ rest) (hp : ¬ SplitsPair (text ++ rest) text.length) :
    (cursorAt loneCr source (n + text.length)).position.line =
      (cursorAt loneCr source n).position.line + lineCount loneCr text := by
  have hlen := add_length_le_of_drop hn h
  rw [position_add loneCr source hlen, h, position_append_left rest hp (Nat.le_refl _),
    position_cursorAt (Nat.le_refl text.length), Position.plus, lineNumber, lineCount,
    Nat.add_sub_cancel_left]

theorem lineCount_append {front back : List Char}
    (hp : ¬ SplitsPair (front ++ back) front.length) :
    lineCount loneCr (front ++ back) = lineCount loneCr front + lineCount loneCr back := by
  have hend : ¬ SplitsPair (back ++ []) back.length :=
    not_splitsPair_of_ne (by rw [List.append_nil, List.getElem?_length]; simp)
  have hfront : (cursorAt loneCr (front ++ back) (0 + front.length)).position.line = _ :=
    line_add_length (Nat.zero_le _) rfl hp
  have hback : (cursorAt loneCr (front ++ back) (front.length + back.length)).position.line = _ :=
    line_add_length (by simp) (by rw [List.drop_left, List.append_nil]) hend
  rw [Nat.zero_add] at hfront
  rw [← List.length_append, position_cursorAt (Nat.le_refl _), hfront] at hback
  change 1 + lineCount loneCr (front ++ back) = 1 + lineCount loneCr front + _ at hback
  omega

theorem lineCount_comment {body ending rest : List Char} (hb : OneLine body)
    (he : CommentEnd loneCr ending rest) :
    lineCount loneCr ('#' :: (body ++ ending)) = if ending = [] then 0 else 1 := by
  have hbegin : OneLine ('#' :: body) := List.forall_mem_cons.mpr ⟨by decide, hb⟩
  have hpair : ¬ SplitsPair (('#' :: body) ++ ending) ('#' :: body).length := by
    rintro ⟨m, hm, hreturn, -⟩
    rw [List.getElem?_append_left (hm ▸ Nat.lt_succ_self m)] at hreturn
    exact (hbegin _ (List.mem_of_getElem? hreturn)).2 rfl
  rw [← List.cons_append, lineCount_append hpair, lineCount_of_oneLine hbegin, Nat.zero_add]
  cases he with
  | lineFeed => cases loneCr <;> decide
  | pair => cases loneCr <;> decide
  | loneReturn hl _ =>
    rw [hl]
    decide
  | endOfText => rfl

end Counting

section Lexemes

variable {loneCr : Bool}

/-- Only line ends and strings hold terminators. -/
theorem Spelled.oneLine {text : List Char} {kind : TokenKind} (h : Spelled loneCr text kind)
    (hline : kind ≠ .endOfLine) (hstring : kind ≠ .stringLiteral) : OneLine text := by
  have hclass {p : Char → Bool} (hp : p '\n' = false ∧ p '\r' = false) {text : List Char}
      (h : ∀ c ∈ text, p c = true) : OneLine text := by
    refine fun c hc => ⟨?_, ?_⟩
    · rintro rfl
      exact absurd (h _ hc) (by rw [hp.1]; decide)
    · rintro rfl
      exact absurd (h _ hc) (by rw [hp.2]; decide)
  have hdigits {digits : List Char} (hd : Digits digits) : OneLine digits :=
    hclass (by decide) hd.forall_isDigit
  have hsign {sign : List Char} (hs : Sign sign) : OneLine sign := by
    rcases hs with rfl | rfl
    · exact fun c hc => nomatch hc
    · simp [OneLine]
  cases h with
  | @word c text hc ht =>
    refine hclass (p := isWordChar) (by decide) (List.forall_mem_cons.mpr ⟨?_, ?_⟩)
    · exact isWordChar_of_isWordStart (isWordStart_iff.mpr hc)
    · exact fun d hd => isWordChar_iff.mpr (ht d hd)
  | integer hs hd => exact List.forall_mem_append.mpr ⟨hsign hs, hdigits hd⟩
  | float hs hd hf =>
    refine List.forall_mem_append.mpr ⟨List.forall_mem_append.mpr ⟨hsign hs, hdigits hd⟩, ?_⟩
    exact List.forall_mem_cons.mpr ⟨by decide, hdigits hf⟩
  | string hb => exact absurd rfl hstring
  | mark hm =>
    have hmarks : ∀ entry ∈ marks loneCr, entry.2 ≠ .endOfLine →
        entry.1.all (fun c => !isLineTerminator c) = true := by cases loneCr <;> decide
    exact hclass (p := fun c => !isLineTerminator c) (by decide)
      (List.all_eq_true.mp (hmarks _ hm hline))

theorem Spelled.lineEnd {text : List Char} (h : Spelled loneCr text .endOfLine) :
    text = ['\n'] ∨ text = ['\r', '\n'] ∨ loneCr = true ∧ text = ['\r'] := by
  generalize hk : TokenKind.endOfLine = kind at h
  cases h with
  | word hc ht =>
    unfold wordKind at hk
    split at hk
    · cases hk
    · split at hk <;> cases hk
  | integer => cases hk
  | float => cases hk
  | string => cases hk
  | mark hm =>
    have hmarks : ∀ entry ∈ marks loneCr, .endOfLine = entry.2 →
        entry.1 = ['\n'] ∨ entry.1 = ['\r', '\n'] ∨ loneCr = true ∧ entry.1 = ['\r'] := by
      cases loneCr <;> decide
    exact hmarks _ hm hk

theorem Spelled.lineCount_eq {found : Lexeme} (h : Spelled loneCr found.text found.kind) :
    lineCount loneCr found.text = found.terminators loneCr := by
  unfold Lexeme.terminators
  split
  · rename_i hk
    rw [hk] at h
    rcases h.lineEnd with he | he | ⟨hl, he⟩
    · rw [he]
      cases loneCr <;> decide
    · rw [he]
      cases loneCr <;> decide
    · rw [he, hl]
      decide
  · rename_i hline
    split
    · rfl
    · rename_i hstring
      exact lineCount_of_oneLine (h.oneLine hline hstring)

end Lexemes

/-- Tokens from an offset and a line on, each as many lines behind as terminators are between. -/
inductive Tallied (loneCr : Bool) (source : List Char) : Nat → Int → List Token → Prop
  | last {n : Nat} {line : Int} {t : Token} (hn : n ≤ t.start)
      (hl : t.line = line + terminatedComments (between source n t.start))
      (hk : t.kind = .endOfInput) : Tallied loneCr source n line [t]
  | cons {n : Nat} {line : Int} {t : Token} {tokens : List Token} (hn : n ≤ t.start)
      (hl : t.line = line + terminatedComments (between source n t.start))
      (h : Tallied loneCr source t.stop (t.line + t.terminators loneCr) tokens) :
      Tallied loneCr source n line (t :: tokens)

section Tallies

variable {loneCr : Bool} {source : List Char} {n : Nat} {line : Int} {tokens : List Token}

/-- Trivia in front of the first token put it as many lines behind as they hold terminators. -/
theorem Tallied.prepend {text : List Char} {lines : Nat}
    (htext : source.drop n = text ++ source.drop (n + text.length))
    (htrivia : ∀ gap rest, gap ++ rest = source.drop (n + text.length) →
      terminatedComments (text ++ gap) = lines + terminatedComments gap)
    (h : Tallied loneCr source (n + text.length) (line + lines) tokens) :
    Tallied loneCr source n line tokens := by
  have hgap {last : Nat} (hl : n + text.length ≤ last) :
      terminatedComments (between source n last) =
        lines + terminatedComments (between source (n + text.length) last) := by
    rw [between_of_drop_append source htext hl, htrivia _ _ (between_append_drop source hl)]
  cases h with
  | last hn hl hk =>
    refine .last (Nat.le_of_add_right_le hn) ?_ hk
    rw [hl, hgap hn, Nat.cast_add, add_assoc]
  | cons hn hl h =>
    refine .cons (Nat.le_of_add_right_le hn) ?_ h
    rw [hl, hgap hn, Nat.cast_add, add_assoc]

theorem Tallied.line_head (h : Tallied loneCr source n line tokens) :
    ∀ t ∈ tokens.head?, t.line = line + terminatedComments (between source n t.start) := by
  cases h with
  | last _ hl _ => simpa using hl
  | cons _ hl _ => simpa using hl

theorem Tallied.isChain (h : Tallied loneCr source n line tokens) :
    tokens.IsChain fun a b : Token => b.line - a.line =
      a.terminators loneCr + terminatedComments (between source a.stop b.start) := by
  induction h with
  | last _ _ _ => exact .singleton _
  | cons _ _ h ih =>
    refine List.isChain_cons.mpr ⟨fun b hb => ?_, ih⟩
    rw [h.line_head b hb]
    omega

/-- The line of the last token is where all terminators on the way have led to. -/
theorem Tallied.line_last (h : Tallied loneCr source n line tokens) :
    ∃ (front : List Token) (last : Token), tokens = front ++ [last] ∧ last.kind = .endOfInput ∧
      last.line = line + (tokens.map (·.terminators loneCr)).sum +
        ((gaps source n tokens).map terminatedComments).sum := by
  induction h with
  | @last n line t _ hl hk =>
    refine ⟨[], t, rfl, hk, ?_⟩
    simp [hl, gaps, Lexeme.terminators, hk]
  | @cons n line t tokens _ hl _ ih =>
    obtain ⟨front, last, rfl, hk, hlast⟩ := ih
    refine ⟨t :: front, last, rfl, hk, ?_⟩
    rw [hlast, hl, gaps, List.map_cons, List.map_cons, List.sum_cons, List.sum_cons]
    push_cast
    ring

/-- The terminators in tokens are the line ends and those in strings. -/
theorem sum_terminators (loneCr : Bool) (tokens : List Token) :
    (tokens.map (·.terminators loneCr)).sum = tokens.countP (·.kind == .endOfLine) +
      ((tokens.filter (·.kind == .stringLiteral)).map fun t => lineCount loneCr t.text).sum := by
  induction tokens with
  | nil => rfl
  | cons t tokens ih =>
    rw [List.map_cons, List.sum_cons, ih, List.countP_cons, Lexeme.terminators]
    by_cases hline : t.kind = .endOfLine
    · simp [hline]
      omega
    · by_cases hstring : t.kind = .stringLiteral
      · simp [hstring]
        omega
      · simp [hline, hstring]

end Tallies

section Tokenize

variable {options : Options} {source : List Char}

private theorem line_token {n : Nat} (hn : n ≤ source.length) (found : Lexeme) :
    let t := (cursorAt options.loneCr source n).token options source found
    t.line = (cursorAt options.loneCr source n).position.line +
      terminatedComments (between source n t.start) := by
  intro t
  rw [start_token options source hn found, between_self]
  exact (add_zero _).symm

/-- A split that reaches the end of the text lays its tokens out on the lines counted so far. -/
theorem tallied_layOut {n : Nat} {pieces : List Piece} (hn : n ≤ source.length)
    (h : Split.ofText options (source.drop n) = ⟨pieces, none⟩) :
    Tallied options.loneCr source n (cursorAt options.loneCr source n).position.line
      ((cursorAt options.loneCr source n).layOut options source pieces) := by
  induction pieces generalizing n with
  | nil =>
    rw [layOut_nil]
    exact .last (start_token options source hn _).ge (line_token hn _) rfl
  | cons piece pieces ih =>
    obtain ⟨rest, htext, hbefore, hrest⟩ := Split.ofText_eq_cons h
    obtain ⟨-, hpair⟩ := @not_splitsPair_of_split _ _ [piece] pieces none h
    rw [extent_cons, extent_nil, Nat.add_zero, htext] at hpair
    have hline : (cursorAt options.loneCr source (n + piece.text.length)).position.line =
        (cursorAt options.loneCr source n).position.line + lineCount options.loneCr piece.text :=
      line_add_length hn htext hpair
    have hlen := add_length_le_of_drop hn htext
    have hdrop := drop_of_drop htext
    rw [← hdrop] at htext hbefore hrest
    have hlater := ih hlen hrest
    rw [hline, Nat.cast_add] at hlater
    cases hbefore with
    | @blank c _ hb =>
      rw [layOut_blank]
      refine hlater.prepend htext (fun gap rest _ => ?_)
      have hnone : lineCount options.loneCr [c] = 0 := by
        apply lineCount_of_oneLine
        rcases isBlank_iff.mp hb with rfl | rfl <;> simp [OneLine]
      rw [Piece.text, hnone, Nat.zero_add, terminatedComments_blank hb]
    | @comment body ending _ hb hend =>
      rw [layOut_comment]
      rcases hend with hend | ⟨-, hstray⟩
      · refine hlater.prepend htext (fun gap rest hgap => ?_)
        rw [Piece.text, lineCount_comment hb hend]
        rw [← hgap] at hend
        exact terminatedComments_comment hb hend
      -- the carriage return left by this comment would have stopped the split
      · exact absurd (by rw [hrest]) (Split.stop_of_strayReturn hstray)
    | @lexeme found _ hr =>
      rw [layOut_lexeme]
      have hstart := start_token options source hn found
      refine .cons hstart.ge (line_token hn found) ?_
      rw [Token.stop, hstart]
      rw [Piece.text, hr.spelled.lineCount_eq] at hlater
      exact hlater

/-- Every terminator is counted where it is: the line of the end of input tells the line ends, the
terminated comments and the terminators in strings, and from one token to the next it is as many lines
on as there are terminators in the one and terminated comments between them. A line end is exactly one
terminator. -/
theorem tokenize_accounts {tokens : List Token} (h : tokenize options source = .ok tokens) :
    (∃ front eof, tokens = front ++ [eof] ∧ eof.kind = .endOfInput ∧
      eof.line - 1 = ((tokens.countP (·.kind == .endOfLine) +
        ((gaps source 0 tokens).map terminatedComments).sum +
        ((tokens.filter (·.kind == .stringLiteral)).map
          fun t => lineCount options.loneCr t.text).sum : Nat) : Int)) ∧
    (∀ t ∈ tokens, t.kind = .endOfLine → t.text = ['\n'] ∨ t.text = ['\r', '\n'] ∨
      options.loneCr = true ∧ t.text = ['\r'] ∧ source[t.stop]? ≠ some '\n') ∧
    tokens.IsChain fun a b : Token => b.line - a.line =
      (if a.kind = .endOfLine then 1
        else if a.kind = .stringLiteral then (lineCount options.loneCr a.text : Int)
        else 0) + terminatedComments (between source a.stop b.start) := by
  obtain ⟨pieces, hs, htokens⟩ := (tokenize_eq_ok_iff options source).mp h
  have htallied := tallied_layOut (Nat.zero_le _) hs
  rw [htokens] at htallied
  refine ⟨?_, ?_, ?_⟩
  · obtain ⟨front, eof, hfront, hk, hline⟩ := htallied.line_last
    refine ⟨front, eof, hfront, hk, ?_⟩
    rw [hline, sum_terminators]
    change ((1 : Nat) : Int) + _ + _ - 1 = _
    push_cast
    ring
  · intro t ht hk
    obtain ⟨-, rest, hdrop, hr⟩ := reads_of_tokenize h ht (by rw [hk]; decide)
    have hspelled := hr.spelled
    rw [hk] at hspelled
    refine hspelled.lineEnd.imp_right (Or.imp_right fun ⟨hl, htext⟩ => ⟨hl, htext, ?_⟩)
    have hnext := hr.following_ne_lineFeed (by rw [htext]; rfl)
    rw [← List.head?_drop, Token.stop, drop_of_drop hdrop]
    exact hnext
  · refine htallied.isChain.imp fun a b hab => ?_
    rw [hab, Lexeme.terminators]
    push_cast
    rfl

/-- A pair in a string, a pair behind a comment and a lone carriage return are a line each, and the
comment that ends the text is none. -/
theorem accounts_for_pairs :
    ∃ tokens, tokenize { } "\"x\r\ny\" #b\r\n\r#c".toList = .ok tokens ∧
      tokens.map (fun t => (t.kind, t.line)) =
        [(.stringLiteral, 1), (.endOfLine, 3), (.endOfInput, 4)] ∧
      (∃ front eof, tokens = front ++ [eof] ∧ eof.kind = .endOfInput ∧
        eof.line - 1 = ((1 + 1 + 1 : Nat) : Int)) ∧
      (∀ t ∈ tokens, t.kind = .endOfLine → t.text = ['\n'] ∨ t.text = ['\r', '\n'] ∨
        true = true ∧ t.text = ['\r'] ∧ "\"x\r\ny\" #b\r\n\r#c".toList[t.stop]? ≠ some '\n') ∧
      tokens.IsChain fun a b : Token => b.line - a.line =
        (if a.kind = .endOfLine then 1
          else if a.kind = .stringLiteral then (lineCount true a.text : Int)
          else 0) +
          terminatedComments (between "\"x\r\ny\" #b\r\n\r#c".toList a.stop b.start) := by
  obtain ⟨tokens, h, hcounts⟩ := exists_tokens
    (show (tokenize { } "\"x\r\ny\" #b\r\n\r#c".toList).toOption.map (fun tokens =>
      (tokens.map (fun t => (t.kind, t.line)), tokens.countP (·.kind == .endOfLine),
        ((gaps "\"x\r\ny\" #b\r\n\r#c".toList 0 tokens).map terminatedComments).sum,
        ((tokens.filter (·.kind == .stringLiteral)).map fun t => lineCount true t.text).sum)) =
      some ([(.stringLiteral, 1), (.endOfLine, 3), (.endOfInput, 4)], 1, 1, 1) by decide +kernel)
  simp only [Prod.mk.injEq] at hcounts
  obtain ⟨hlines, hends, hcomments, hstrings⟩ := hcounts
  obtain ⟨⟨front, eof, hfront, hk, hline⟩, hterminators, hchain⟩ := tokenize_accounts h
  rw [hends, hcomments, hstrings] at hline
  exact ⟨tokens, h, hlines, ⟨front, eof, hfront, hk, hline⟩, hterminators, hchain⟩

end Tokenize

end Lexing
