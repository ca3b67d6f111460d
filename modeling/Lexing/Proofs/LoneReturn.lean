import Lexing.Proofs.Restart

/-!
# Carriage returns under the two rules

A carriage return without a line feed behind it ends a line under the lenient rule and may stand in
strings only under the strict one. Where a text has a token list under both rules, the two lists
differ in places at most, and without such carriage returns the two rules are the same.
-/

namespace Lexing

/-- The options with the strict rule for carriage returns. -/
def Options.strict (options : Options) : Options := { options with loneCr := false }

/-- The options with the lenient rule for carriage returns. -/
def Options.lenient (options : Options) : Options := { options with loneCr := true }

/-- A carriage return stands at an index without a line feed behind it. -/
def LoneReturn (source : List Char) (i : Nat) : Prop :=
  source[i]? = some '\r' ∧ source[i + 1]? ≠ some '\n'

/-- An index belongs to a string of a row of pieces. -/
def InString (pieces : List Piece) (i : Nat) : Prop :=
  ∃ done found later, pieces = done ++ .lexeme found :: later ∧ found.kind = .stringLiteral ∧
    extent done ≤ i ∧ i < extent done + found.text.length

/-- A token is another one but for its line and its column. -/
def Token.SameButPlace (t u : Token) : Prop :=
  { t with line := u.line, column := u.column } = u

section Returns

variable {options : Options} {front back : List Char} {i : Nat}

theorem loneReturn_append_right :
    LoneReturn (front ++ back) (front.length + i) ↔ LoneReturn back i := by
  rw [LoneReturn, LoneReturn, Nat.add_assoc, List.getElem?_append_right (Nat.le_add_right _ _),
    List.getElem?_append_right (Nat.le_add_right _ _), Nat.add_sub_cancel_left,
    Nat.add_sub_cancel_left]

theorem Scan.StrayReturn.loneReturn {loneCr : Bool} {rest : List Char}
    (h : Scan.StrayReturn loneCr rest) : LoneReturn rest 0 := by
  obtain ⟨-, more, rfl, hmore⟩ := h
  exact ⟨rfl, by simpa [List.head?_eq_getElem?] using hmore⟩

theorem inString_head {found : Lexeme} (pieces : List Piece) (hk : found.kind = .stringLiteral)
    (hi : i < found.text.length) : InString (.lexeme found :: pieces) i :=
  ⟨[], found, pieces, rfl, hk, Nat.zero_le i, by simpa using hi⟩

theorem inString_cons {piece : Piece} {pieces : List Piece} :
    InString (piece :: pieces) (piece.text.length + i) ↔ InString pieces i := by
  constructor
  · rintro ⟨done, found, later, he, hk, hle, hlt⟩
    rcases List.cons_eq_append_iff.mp he with ⟨rfl, hhead⟩ | ⟨done, rfl, rfl⟩
    · obtain ⟨rfl, -⟩ := List.cons.inj hhead
      simp [Piece.text] at hlt
    · rw [extent_cons] at hle hlt
      exact ⟨done, found, later, rfl, hk, by omega, by omega⟩
  · rintro ⟨done, found, later, rfl, hk, hle, hlt⟩
    refine ⟨piece :: done, found, later, rfl, hk, ?_, ?_⟩
    · rw [extent_cons]
      omega
    · rw [extent_cons]
      omega

theorem eq_string_of_inString {piece : Piece} {pieces : List Piece}
    (h : InString (piece :: pieces) i) (hi : i < piece.text.length) :
    ∃ found, piece = .lexeme found ∧ found.kind = .stringLiteral := by
  obtain ⟨done, found, later, he, hk, hle, -⟩ := h
  rcases List.cons_eq_append_iff.mp he with ⟨rfl, hhead⟩ | ⟨done, rfl, rfl⟩
  · exact ⟨found, (List.cons.inj hhead).1.symm, hk⟩
  · rw [extent_cons] at hle
    omega

/-- The strings of pieces are the string literals of their tokens. -/
theorem inString_iff {source : List Char} {pieces : List Piece}
    (hp : extent pieces ≤ source.length) : InString pieces i ↔
      ∃ t ∈ (cursorAt options.loneCr source 0).layOut options source pieces,
        t.kind = .stringLiteral ∧ t.start ≤ i ∧ i < t.stop := by
  constructor
  · rintro ⟨done, found, later, rfl, hk, hle, hlt⟩
    obtain ⟨front, -, hlater⟩ := layOut_append options source 0 done
    rw [extent_append] at hp
    have hstart := start_token options source (Nat.le_of_add_right_le hp) found
    refine ⟨_, ?_, hk, hstart.le.trans hle, ?_⟩
    · rw [hlater, layOut_lexeme, Nat.zero_add]
      exact List.mem_append_right _ List.mem_cons_self
    · rw [Token.stop, hstart]
      exact hlt
  · rintro ⟨t, ht, hk, hle, hlt⟩
    rcases mem_layOut options source ht with ⟨done, found, later, rfl, rfl⟩ | rfl
    · rw [extent_append] at hp
      rw [Nat.zero_add] at hle hlt hk
      have hstart := start_token options source (Nat.le_of_add_right_le hp) found
      rw [hstart] at hle
      rw [Token.stop, hstart] at hlt
      exact ⟨done, found, later, rfl, hk, hle, hlt⟩
    · cases hk

end Returns

section Rules

variable {options : Options}

/-- The rule for carriage returns decides about a lexeme only whether it is among the marks. -/
theorem Reads.of_marks {a b : Options} {found : Lexeme} {following : Option Char}
    (hbits : a.intBits = b.intBits) (h : Reads a found following)
    (hm : (found.text, found.kind) ∈ marks a.loneCr → EndsRun (joinsMark found.text) following →
      (found.text, found.kind) ∈ marks b.loneCr) : Reads b found following := by
  have hmin : a.intMin = b.intMin := by rw [Options.intMin, hbits, Options.intMin]
  have hmax : a.intMax = b.intMax := by rw [Options.intMax, hbits, Options.intMax]
  have hliteral (sign digits : List Char) :
      Scan.intLiteral a sign digits = Scan.intLiteral b sign digits := by
    rw [Scan.intLiteral, hmin, hmax, Scan.intLiteral]
  cases h with
  | word hc ht hr => exact .word hc ht hr
  | integer hs hd hv hr hp =>
    rw [hliteral] at hv
    exact .integer hs hd hv hr hp
  | float hs hd hf hv hr => exact .float hs hd hf hv hr
  | string hb => exact .string hb
  | mark hmem hr => exact .mark (hm hmem hr) hr

namespace Piece.Before

variable {piece : Piece} {rest : List Char}

theorem lenient (h : piece.Before options.strict rest) (hs : ¬ Scan.StrayReturn false rest) :
    piece.Before options.lenient rest := by
  cases h with
  | blank _ hb => exact .blank rest hb
  | comment hb he =>
    refine .comment hb (.inl ?_)
    cases he.resolve_right fun hstray => hs hstray.2 with
    | lineFeed => exact .lineFeed rest
    | pair => exact .pair rest
    | loneReturn hl _ => cases hl
    | endOfText => exact .endOfText
  | lexeme hr =>
    have hmarks : ∀ entry ∈ marks false, entry ∈ marks true := by decide
    exact .lexeme (.of_marks (a := options.strict) rfl hr fun hm _ => hmarks _ hm)

/-- What stands somewhere under the lenient rule stands there under the strict one too, if a string
holds each lone carriage return in it. -/
theorem strict (h : piece.Before options.lenient rest)
    (hq : ∀ i < piece.text.length, LoneReturn (piece.text ++ rest) i →
      ∃ found, piece = .lexeme found ∧ found.kind = .stringLiteral) :
    piece.Before options.strict rest := by
  cases h with
  | blank _ hb => exact .blank rest hb
  | @comment body ending _ hb he =>
    refine .comment hb (.inl ?_)
    cases he.resolve_right fun hstray => nomatch hstray.2.1 with
    | lineFeed => exact .lineFeed rest
    | pair => exact .pair rest
    | endOfText => exact .endOfText
    | loneReturn _ hr =>
      obtain ⟨found, hfound, -⟩ := hq ('#' :: body).length (by simp [text]) (by
        have hlone : LoneReturn ('\r' :: rest) 0 :=
          ⟨rfl, by simpa [List.head?_eq_getElem?] using hr⟩
        have hbehind := (@loneReturn_append_right ('#' :: body) _ _).mpr hlone
        simpa [text] using hbehind)
      cases hfound
  | @lexeme found _ hr =>
    have hmarks : ∀ entry ∈ marks true, entry ∈ marks false ∨ entry = (['\r'], .endOfLine) := by
      decide
    refine .lexeme (.of_marks (a := options.lenient) rfl hr fun hm hends => ?_)
    refine (hmarks _ hm).resolve_right fun he => ?_
    obtain ⟨htext, hkind⟩ := Prod.mk.inj he
    have hnext : rest.head? ≠ some '\n' := by
      rw [htext] at hends
      intro hfeed
      rw [hfeed, endsRun_some] at hends
      cases hends
    obtain ⟨other, hother, hstring⟩ := hq 0 (by simp [text, htext]) (by
      rw [text, htext]
      exact ⟨rfl, by simpa [List.head?_eq_getElem?] using hnext⟩)
    cases hother
    rw [hkind] at hstring
    cases hstring

/-- Under the strict rule only strings hold lone carriage returns. -/
theorem eq_string_of_loneReturn (h : piece.Before options.strict rest) {i : Nat}
    (hi : i < piece.text.length) (hl : LoneReturn (piece.text ++ rest) i) :
    ∃ found, piece = .lexeme found ∧ found.kind = .stringLiteral := by
  have hmem : '\r' ∈ piece.text := by
    rw [LoneReturn, List.getElem?_append_left hi] at hl
    exact List.mem_of_getElem? hl.1
  -- a carriage return at the end of a piece that is no string has its line feed there too
  have hpair {front : List Char} (hplain : '\r' ∉ front)
      (he : piece.text = front ++ ['\r', '\n']) : False := by
    obtain ⟨hreturn, hfeed⟩ := hl
    rw [he, List.append_assoc] at hreturn hfeed
    rw [he, List.length_append] at hi
    by_cases hfront : i < front.length
    · rw [List.getElem?_append_left hfront] at hreturn
      exact hplain (List.mem_of_getElem? hreturn)
    · obtain ⟨j, rfl⟩ := Nat.exists_eq_add_of_le (Nat.le_of_not_lt hfront)
      rw [List.getElem?_append_right (Nat.le_add_right _ _), Nat.add_sub_cancel_left] at hreturn
      rw [Nat.add_assoc, List.getElem?_append_right (Nat.le_add_right _ _),
        Nat.add_sub_cancel_left] at hfeed
      have hj : j = 0 ∨ j = 1 := by
        simp only [List.length_cons, List.length_nil] at hi
        omega
      rcases hj with rfl | rfl
      · exact hfeed rfl
      · cases hreturn
  cases h with
  | blank _ hb =>
    obtain rfl := List.mem_singleton.mp hmem
    exact absurd hb (by decide)
  | @comment body ending _ hb he =>
    have hplain : '\r' ∉ '#' :: body := by
      rw [List.mem_cons, not_or]
      exact ⟨by decide, fun hreturn => (hb _ hreturn).2 rfl⟩
    change '\r' ∈ ('#' :: body) ++ ending at hmem
    have hending := (List.mem_append.mp hmem).resolve_left hplain
    rcases he with hend | ⟨rfl, -⟩
    · cases hend with
      | lineFeed => exact absurd hending (by decide)
      | pair => exact (hpair hplain rfl).elim
      | loneReturn hlenient _ => cases hlenient
      | endOfText => cases hending
    · cases hending
  | @lexeme found _ hr =>
    rcases hr.cases_of_return hmem with ⟨hk, -⟩ | ⟨hm, -⟩
    · exact ⟨found, rfl, hk⟩
    · have hmarks : ∀ entry ∈ marks false, '\r' ∈ entry.1 → entry.1 = ['\r', '\n'] := by decide
      exact (@hpair [] List.not_mem_nil (hmarks _ hm hmem)).elim

end Piece.Before

namespace Split

variable {text : List Char} {pieces : List Piece}

theorem not_strayReturn_of_ofText (h : ofText options.strict text = ⟨pieces, none⟩) :
    ¬ Scan.StrayReturn false text := by
  intro hstray
  exact @stop_of_strayReturn options.strict _ hstray (by rw [h])

theorem ofText_lenient (h : ofText options.strict text = ⟨pieces, none⟩) :
    ofText options.lenient text = ⟨pieces, none⟩ := by
  induction pieces generalizing text with
  | nil => rw [eq_nil_of_ofText h, ofText_nil]
  | cons piece pieces ih =>
    obtain ⟨rest, rfl, hbefore, hrest⟩ := ofText_eq_cons h
    have hlenient := hbefore.lenient (not_strayReturn_of_ofText hrest)
    rw [ofText_before hlenient (fun hstray => nomatch hstray.1), ih hrest]
    rfl

theorem ofText_strict (h : ofText options.lenient text = ⟨pieces, none⟩)
    (hq : ∀ i, LoneReturn text i → InString pieces i) :
    ofText options.strict text = ⟨pieces, none⟩ := by
  induction pieces generalizing text with
  | nil => rw [eq_nil_of_ofText h, ofText_nil]
  | cons piece pieces ih =>
    obtain ⟨rest, rfl, hbefore, hrest⟩ := ofText_eq_cons h
    have hstrict := ih hrest fun i hi => inString_cons.mp (hq _ (loneReturn_append_right.mpr hi))
    have hpiece := hbefore.strict fun i hi hlone => eq_string_of_inString (hq i hlone) hi
    rw [ofText_before hpiece (not_strayReturn_of_ofText hstrict), hstrict]
    rfl

theorem inString_of_ofText (h : ofText options.strict text = ⟨pieces, none⟩) {i : Nat}
    (hi : LoneReturn text i) : InString pieces i := by
  induction pieces generalizing text i with
  | nil =>
    rw [eq_nil_of_ofText h] at hi
    cases hi.1
  | cons piece pieces ih =>
    obtain ⟨rest, rfl, hbefore, hrest⟩ := ofText_eq_cons h
    rcases Nat.lt_or_ge i piece.text.length with hinside | hbehind
    · obtain ⟨found, rfl, hk⟩ := hbefore.eq_string_of_loneReturn hinside hi
      exact inString_head pieces hk hinside
    · obtain ⟨j, rfl⟩ := Nat.exists_eq_add_of_le hbehind
      exact inString_cons.mpr (ih hrest (loneReturn_append_right.mp hi))

end Split

end Rules

section Paired

variable {options : Options}

/-- No carriage return of a text is without its line feed. -/
def AllPaired (text : List Char) : Prop := ∀ i, ¬ LoneReturn text i

namespace AllPaired

variable {text : List Char}

theorem of_append {front back : List Char} (h : AllPaired (front ++ back)) : AllPaired back :=
  fun _ hi => h _ (loneReturn_append_right.mpr hi)

theorem tail {c : Char} (h : AllPaired (c :: text)) : AllPaired text := by
  rw [← List.singleton_append] at h
  exact h.of_append

theorem drop (h : AllPaired text) (n : Nat) : AllPaired (text.drop n) := by
  rw [← List.take_append_drop n text] at h
  exact h.of_append

theorem head?_tail (h : AllPaired ('\r' :: text)) : text.head? = some '\n' := by
  by_contra hfeed
  exact h 0 ⟨rfl, by simpa [List.head?_eq_getElem?] using hfeed⟩

theorem endOfLine {c : Char} (h : AllPaired (c :: text)) (hc : isLineTerminator c = true) :
    Scan.endOfLine false (c :: text) = Scan.endOfLine true (c :: text) := by
  have hcases : c = '\n' ∨ c = '\r' := by simpa [isLineTerminator] using hc
  rcases hcases with rfl | rfl
  · rw [Scan.endOfLine_lineFeed, Scan.endOfLine_lineFeed]
  · obtain ⟨more, rfl⟩ := List.head?_eq_some_iff.mp h.head?_tail
    rw [Scan.endOfLine_pair, Scan.endOfLine_pair]

theorem lineEnd (h : AllPaired text) : Scan.lineEnd false text = Scan.lineEnd true text := by
  unfold Scan.lineEnd
  split
  · rfl
  · rfl
  · rename_i rest hne
    obtain ⟨more, rfl⟩ := List.head?_eq_some_iff.mp h.head?_tail
    exact (hne more rfl).elim
  · rfl

theorem comment {c : Char} (h : AllPaired (c :: text)) :
    Scan.comment false (c :: text) = Scan.comment true (c :: text) := by
  have hline := h.tail
  rw [← List.takeWhile_append_dropWhile (p := fun c => !isLineTerminator c) (l := text)] at hline
  simp only [Scan.comment, List.drop_one, List.tail_cons, hline.of_append.lineEnd]

theorem next {c : Char} (h : AllPaired (c :: text)) :
    Scan.next options.strict c text = Scan.next options.lenient c text := by
  rcases Scan.firstChar_cases c with hc | rfl | ⟨hc, hm⟩ | hc | rfl | hc | rfl | hc
  · rw [Scan.next_of_isWordStart _ _ hc, Scan.next_of_isWordStart _ _ hc]
  · rw [Scan.next_minus, Scan.next_minus]
    rfl
  · rw [Scan.next_of_isOperatorChar _ _ hc hm, Scan.next_of_isOperatorChar _ _ hc hm]
  · rw [Scan.next_of_isDigit _ _ hc, Scan.next_of_isDigit _ _ hc]
    rfl
  · rw [Scan.next_quote, Scan.next_quote]
  · rw [Scan.next_of_isLineTerminator _ _ hc, Scan.next_of_isLineTerminator _ _ hc]
    exact congrArg _ (h.endOfLine hc)
  · rw [Scan.next_hash, Scan.next_hash]
    exact h.comment
  · rw [Scan.next_of_unclaimed _ _ hc, Scan.next_of_unclaimed _ _ hc]

theorem split (h : AllPaired text) :
    Split.ofText options.strict text = Split.ofText options.lenient text := by
  induction text using Split.ofText.induct options.strict with
  | case1 => rw [Split.ofText_nil, Split.ofText_nil]
  | case2 c text hb ih => rw [Split.ofText_blank _ hb, Split.ofText_blank _ hb, ih h.tail]
  | case3 c text hb scan lexeme? ho ih =>
    rw [Bool.not_eq_true] at hb
    have hrest : AllPaired scan.rest := by
      rw [← Scan.next_covers options.strict c text] at h
      exact h.of_append
    have hnext : scan = Scan.next options.lenient c text := h.next
    rw [Split.ofText_of_ok hb ho, ih hrest, hnext, Split.ofText_of_ok hb (hnext ▸ ho), ← hnext]
  | case4 c text hb scan fault ho =>
    rw [Bool.not_eq_true] at hb
    have hnext : scan = Scan.next options.lenient c text := h.next
    rw [Split.ofText_of_error hb ho, Split.ofText_of_error hb (hnext ▸ ho), ← hnext]

theorem position (h : AllPaired text) {n : Nat} (hn : n ≤ text.length) :
    (cursorAt false text n).position = (cursorAt true text n).position := by
  induction n with
  | zero => rfl
  | succ n ih =>
    have hlt : n < text.length := hn
    have hends : Position.endsLine false text[n] text[n + 1]? =
        Position.endsLine true text[n] text[n + 1]? := by
      have hpaired := h n
      rw [LoneReturn, List.getElem?_eq_getElem hlt, Option.some_inj, not_and, not_not] at hpaired
      by_cases hreturn : text[n] = '\r'
      · rw [hpaired hreturn]
        simp [Position.endsLine]
      · simp [Position.endsLine, hreturn]
    rw [position_cursorAt_succ hlt, position_cursorAt_succ hlt, ih hlt.le, Position.after, hends,
      Position.after]

theorem return_not_mem_firstLine (h : AllPaired text) : '\r' ∉ firstLine false text := by
  induction text with
  | nil => exact List.not_mem_nil
  | cons c text ih =>
    rw [firstLine]
    split
    · exact List.not_mem_nil
    · rename_i hgoes
      rw [List.mem_cons, not_or]
      refine ⟨?_, ih h.tail⟩
      rintro rfl
      exact hgoes (by simp [beginsLineEnd, h.head?_tail])

theorem lineAt (h : AllPaired text) {n : Nat} (hn : n ≤ text.length) (hp : ¬ SplitsPair text n) :
    Text.lineAt false text n = Text.lineAt true text n := by
  rw [lineAt_eq_lineText hn fun _ => hp, lineAt_eq_lineText hn fun _ => hp]
  exact ((lineText_lenient_iff hn hp).mpr (h.drop _).return_not_mem_firstLine).symm

theorem token (h : AllPaired text) {n : Nat} (hn : n ≤ text.length) (found : Lexeme) :
    (cursorAt false text n).token options.strict text found =
      (cursorAt true text n).token options.lenient text found := by
  rw [Cursor.token, h.position hn]
  rfl

theorem diagnose (h : AllPaired text) {n : Nat} (hn : n ≤ text.length) (hp : ¬ SplitsPair text n)
    (fault : Fault) : (cursorAt false text n).diagnose options.strict fault =
      (cursorAt true text n).diagnose options.lenient fault := by
  have hline : (cursorAt false text n).currentLine false =
      (cursorAt true text n).currentLine true := by
    rw [Cursor.currentLine, Cursor.currentLine, source_cursorAt, source_cursorAt,
      offset_cursorAt _ _ hn, offset_cursorAt _ _ hn, h.lineAt hn hp]
  have hplace : (cursorAt false text n).location options.strict =
      (cursorAt true text n).location options.lenient := by
    rw [Cursor.location, h.position hn]
    rfl
  rw [Cursor.diagnose, hplace, show options.strict.loneCr = false from rfl, hline]
  rfl

/-- Without lone carriage returns the two rules are the same. -/
theorem tokenize_eq (h : AllPaired text) :
    tokenize options.strict text = tokenize options.lenient text := by
  obtain ⟨pieces, stop, hs⟩ :
      ∃ pieces stop, Split.ofText options.strict text = ⟨pieces, stop⟩ := ⟨_, _, rfl⟩
  have hlenient := h.split.symm.trans hs
  cases stop with
  | none =>
    have htokens := (tokenize_eq_ok_iff options.strict text).mpr ⟨pieces, hs, rfl⟩
    have htokens' := (tokenize_eq_ok_iff options.lenient text).mpr ⟨pieces, hlenient, rfl⟩
    rw [htokens, htokens', ← List.map_id ((cursorAt _ text 0).layOut options.strict text pieces)]
    congr 1
    apply layOut_map
    intro m hm found
    rw [Nat.zero_add]
    exact h.token (hm.trans (extent_of_split hs).le) found
  | some stop =>
    have hfault := (tokenize_eq_error_iff options.strict text).mpr ⟨pieces, stop, hs, rfl⟩
    have hfault' := (tokenize_eq_error_iff options.lenient text).mpr ⟨pieces, stop, hlenient, rfl⟩
    rw [← List.append_nil pieces] at hs
    obtain ⟨hlen, hpair⟩ := not_splitsPair_of_split hs
    rw [hfault, hfault']
    exact congrArg _ (h.diagnose hlen hpair stop.fault)

end AllPaired

end Paired

section Tokenize

variable {options : Options} {source : List Char}

/-- A text that the strict rule splits to its end holds its lone carriage returns in strings. -/
theorem ofText_strict_iff {pieces : List Piece} :
    Split.ofText options.strict source = ⟨pieces, none⟩ ↔
      Split.ofText options.lenient source = ⟨pieces, none⟩ ∧
        ∀ i, LoneReturn source i → InString pieces i :=
  ⟨fun h => ⟨Split.ofText_lenient h, fun _ => Split.inString_of_ofText h⟩,
    fun h => Split.ofText_strict h.1 h.2⟩

theorem inString_tokens_iff {pieces : List Piece}
    (h : Split.ofText options.lenient source = ⟨pieces, none⟩) {i : Nat} : InString pieces i ↔
      ∃ t ∈ (cursorAt true source 0).layOut options.lenient source pieces,
        t.kind = .stringLiteral ∧ t.start ≤ i ∧ i < t.stop :=
  @inString_iff options.lenient _ _ _ (extent_of_split h).le

/-- Under the strict rule a text has a token list exactly if it has one under the lenient rule whose
string literals hold all lone carriage returns of the text. The two lists are the same but for lines
and columns. Without lone carriage returns the two rules give the same, a diagnostic included. -/
theorem tokenize_strict_lenient (options : Options) (source : List Char) :
    ((∃ tokens, tokenize options.strict source = .ok tokens) ↔
      ∃ tokens, tokenize options.lenient source = .ok tokens ∧
        ∀ i, LoneReturn source i →
          ∃ t ∈ tokens, t.kind = .stringLiteral ∧ t.start ≤ i ∧ i < t.stop) ∧
    (∀ tokens tokens', tokenize options.strict source = .ok tokens →
      tokenize options.lenient source = .ok tokens' →
        List.Forall₂ Token.SameButPlace tokens tokens') ∧
    ((∀ i, ¬ LoneReturn source i) →
      tokenize options.strict source = tokenize options.lenient source) := by
  refine ⟨⟨?_, ?_⟩, ?_, AllPaired.tokenize_eq⟩
  · rintro ⟨tokens, htokens⟩
    obtain ⟨pieces, hs, -⟩ := (tokenize_eq_ok_iff options.strict source).mp htokens
    obtain ⟨hlenient, hstrings⟩ := ofText_strict_iff.mp hs
    exact ⟨_, (tokenize_eq_ok_iff options.lenient source).mpr ⟨pieces, hlenient, rfl⟩,
      fun i hi => (inString_tokens_iff hlenient).mp (hstrings i hi)⟩
  · rintro ⟨tokens, htokens, hstrings⟩
    obtain ⟨pieces, hlenient, rfl⟩ := (tokenize_eq_ok_iff options.lenient source).mp htokens
    have hs := ofText_strict_iff.mpr
      ⟨hlenient, fun i hi => (inString_tokens_iff hlenient).mpr (hstrings i hi)⟩
    exact ⟨_, (tokenize_eq_ok_iff options.strict source).mpr ⟨pieces, hs, rfl⟩⟩
  · intro tokens tokens' hstrict hlenient
    obtain ⟨pieces, hs, rfl⟩ := (tokenize_eq_ok_iff options.strict source).mp hstrict
    obtain ⟨pieces', hs', rfl⟩ := (tokenize_eq_ok_iff options.lenient source).mp hlenient
    obtain ⟨rfl, -⟩ := Split.mk.inj ((Split.ofText_lenient hs).symm.trans hs')
    apply forall₂_layOut
    intro m hm found
    have hlen := hm.trans (extent_of_split hs).le
    rw [Nat.zero_add, Token.SameButPlace]
    simp only [Cursor.token, offset_cursorAt _ _ hlen]
    rfl

/-- A string over a lone carriage return is on one line or on two. -/
theorem strict_lenient_over_return :
    (∃ tokens tokens', tokenize (Options.strict { }) "\"a\rb\" x".toList = .ok tokens ∧
      tokenize (Options.lenient { }) "\"a\rb\" x".toList = .ok tokens' ∧
      tokens.map (fun t => (t.line, t.column)) = [(1, 1), (1, 7), (1, 8)] ∧
      tokens'.map (fun t => (t.line, t.column)) = [(1, 1), (2, 4), (2, 5)] ∧
      List.Forall₂ Token.SameButPlace tokens tokens' ∧
      ∃ t ∈ tokens', t.kind = .stringLiteral ∧ t.start ≤ 2 ∧ 2 < t.stop) ∧
    tokenize (Options.strict { }) "x\r\n|".toList =
      tokenize (Options.lenient { }) "x\r\n|".toList := by
  constructor
  · obtain ⟨tokens, h, hplaces⟩ := exists_tokens
      (show (tokenize (Options.strict { }) "\"a\rb\" x".toList).toOption.map
        (·.map fun t => (t.line, t.column)) = some [(1, 1), (1, 7), (1, 8)] by decide +kernel)
    obtain ⟨tokens', h', hplaces'⟩ := exists_tokens
      (show (tokenize (Options.lenient { }) "\"a\rb\" x".toList).toOption.map
        (·.map fun t => (t.line, t.column)) = some [(1, 1), (2, 4), (2, 5)] by decide +kernel)
    obtain ⟨hiff, hsame, -⟩ := tokenize_strict_lenient { } "\"a\rb\" x".toList
    obtain ⟨lenient, hlenient, hstrings⟩ := hiff.mp ⟨tokens, h⟩
    obtain rfl := Except.ok.inj (h'.symm.trans hlenient)
    exact ⟨tokens, tokens', h, h', hplaces, hplaces', hsame _ _ h h',
      hstrings 2 ⟨rfl, by decide⟩⟩
  · obtain ⟨-, -, hpaired⟩ := tokenize_strict_lenient { } "x\r\n|".toList
    apply hpaired
    rintro i ⟨hreturn, hnext⟩
    match i with
    | 0 => cases hreturn
    | 1 => exact hnext rfl
    | 2 => cases hreturn
    | 3 => cases hreturn
    | i + 4 => cases hreturn

end Tokenize

end Lexing
