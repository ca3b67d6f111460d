import Lexing.Proofs.Pieces
import Lexing.Proofs.Placement

/-!
# Printing lexemes

Lexemes that are written one behind the other, with a blank or a comment between neighbours, are
found again. A lexeme depends on no more than the character behind it, and one that begins a
separator continues no lexeme.
-/

namespace Lexing

/-- Blanks and comments, each comment with its terminator. -/
inductive Separator : List Char → Prop
  | nil : Separator []
  | blank {c : Char} {gap : List Char} (hc : c = ' ' ∨ c = '\t') (h : Separator gap) :
      Separator (c :: gap)
  | comment {body ending gap : List Char} (hb : OneLine body)
      (he : ending = ['\n'] ∨ ending = ['\r', '\n']) (h : Separator gap) :
      Separator ('#' :: (body ++ (ending ++ gap)))

/-- The characters that a separator may begin with. -/
def Inert (c : Char) : Prop := c = ' ' ∨ c = '\t' ∨ c = '#'

/-- Texts with separators behind them. -/
def printed (items : List (Lexeme × List Char)) : List Char :=
  items.flatMap fun item => item.1.text ++ item.2

theorem Separator.inert_head {gap : List Char} (h : Separator gap) : ∀ c ∈ gap.head?, Inert c := by
  cases h with
  | nil => simp
  | blank hc _ => simpa [Inert] using hc.imp_right Or.inl
  | comment _ _ _ => simp [Inert]

section Inert

variable {c : Char}

theorem Inert.isWordChar_eq_false (h : Inert c) : isWordChar c = false := by
  rcases h with rfl | rfl | rfl <;> decide

theorem Inert.isDigit_eq_false (h : Inert c) : isDigit c = false := by
  rcases h with rfl | rfl | rfl <;> decide

theorem Inert.joins_eq_false (h : Inert c) (first : Char) : Scan.joins first c = false := by
  rcases h with rfl | rfl | rfl
  all_goals
    simp only [Scan.joins, Bool.or_eq_false_iff]
    refine ⟨by decide, ?_⟩
    rw [Bool.and_eq_false_imp, beq_iff_eq]
    rintro rfl
    decide

theorem Inert.joinsMark_eq_false (h : Inert c) (spelling : List Char) :
    joinsMark spelling c = false := by
  have harrow : c ≠ '>' ∧ c ≠ '.' ∧ c ≠ '\n' := by
    rcases h with rfl | rfl | rfl <;> decide
  unfold joinsMark
  split
  · simp [h.joins_eq_false, h.isDigit_eq_false, harrow]
  · rfl

end Inert

/-- What is read before some character may be read before a separator or the end of the text. -/
theorem Reads.of_inert {options : Options} {found : Lexeme} {following following' : Option Char}
    (h : Reads options found following') (hi : ∀ c ∈ following, Inert c) :
    Reads options found following := by
  have hdigit : EndsRun isDigit following := fun c hc => (hi c hc).isDigit_eq_false
  cases h with
  | word hc ht _ => exact .word hc ht (fun c hc => (hi c hc).isWordChar_eq_false)
  | integer hs hd hv _ _ =>
    refine .integer hs hd hv hdigit ?_
    rintro rfl
    exact absurd (hi '.' rfl) (by simp [Inert])
  | float hs hd hf hv _ => exact .float hs hd hf hv hdigit
  | string hb => exact .string hb
  | mark hm _ => exact .mark hm (fun c hc => (hi c hc).joinsMark_eq_false _)

namespace Split

variable (options : Options)

theorem ofText_separator {gap : List Char} (h : Separator gap) (rest : List Char) :
    (ofText options (gap ++ rest)).lexemes = (ofText options rest).lexemes ∧
      (ofText options (gap ++ rest)).stop = (ofText options rest).stop := by
  induction h with
  | nil => exact ⟨rfl, rfl⟩
  | blank hc _ ih =>
    rw [List.cons_append, ofText_blank options (isBlank_iff.mpr hc)]
    exact ih
  | @comment body ending gap hb he _ ih =>
    have hend : CommentEnd options.loneCr ending (gap ++ rest) := by
      rcases he with rfl | rfl
      · exact .lineFeed _
      · exact .pair _
    rw [List.cons_append, List.append_assoc, List.append_assoc, ofText_comment hb hend]
    exact ih

variable {options}

theorem ofText_printed {items : List (Lexeme × List Char)}
    (hr : ∀ item ∈ items, ∃ following, Reads options item.1 following)
    (hs : ∀ item ∈ items, Separator item.2) (hn : ∀ item ∈ items.dropLast, item.2 ≠ []) :
    (ofText options (printed items)).lexemes = items.map Prod.fst ∧
      (ofText options (printed items)).stop = none := by
  induction items with
  | nil => simp [printed, lexemes]
  | cons item items ih =>
    obtain ⟨found, gap⟩ := item
    obtain ⟨⟨following, hfound⟩, hlater⟩ := List.forall_mem_cons.mp hr
    obtain ⟨hgap, hgaps⟩ := List.forall_mem_cons.mp hs
    -- a gap may be empty only behind the last lexeme, where the text ends
    have hinert : ∀ c ∈ (gap ++ printed items).head?, Inert c := by
      cases items with
      | nil => simpa [printed] using hgap.inert_head
      | cons next items =>
        obtain ⟨d, more, rfl⟩ := List.exists_cons_of_ne_nil (hn (found, gap) (by simp))
        exact hgap.inert_head
    have hnext : ∀ item ∈ items.dropLast, item.2 ≠ [] := by
      intro item hitem
      cases items with
      | nil => cases hitem
      | cons next items => exact hn item (List.mem_cons_of_mem _ hitem)
    obtain ⟨hlexemes, hstop⟩ := ih hlater hgaps hnext
    obtain ⟨hl, ht⟩ := ofText_separator options hgap (printed items)
    have hwhole : printed ((found, gap) :: items) = found.text ++ (gap ++ printed items) := by
      simp [printed]
    rw [hwhole, ofText_reads (hfound.of_inert hinert)]
    refine ⟨?_, ht.trans hstop⟩
    rw [lexemes_cons_lexeme, hl, hlexemes, List.map_cons]

theorem reads_of_mem_lexemes {text : List Char} {found : Lexeme}
    (h : found ∈ (ofText options text).lexemes) : ∃ following, Reads options found following := by
  obtain ⟨done, later, hp⟩ := exists_piece_of_mem_lexemes h
  cases hs : ofText options text with
  | mk pieces stop =>
    rw [hs] at hp
    obtain rfl : pieces = done ++ .lexeme found :: later := hp
    obtain ⟨rest, -, hr⟩ := reads_of_ofText hs
    exact ⟨_, hr⟩

end Split

/-- A lexeme whose text alone has the token list of that lexeme. -/
def Alone (options : Options) (found : Lexeme) : Prop :=
  ∃ t last, tokenize options found.text = .ok [t, last] ∧ t.toLexeme = found

section Tokenize

variable {options : Options}

theorem Alone.reads {found : Lexeme} (h : Alone options found) :
    ∃ following, Reads options found following := by
  obtain ⟨t, last, ht, rfl⟩ := h
  have hlexemes := lexemes_of_tokenize ht
  rw [List.map_cons, List.map_singleton, ← List.singleton_append] at hlexemes
  obtain ⟨hone, -⟩ := List.append_inj' hlexemes rfl
  have hmem : t.toLexeme ∈ (Split.ofText options t.toLexeme.text).lexemes := by
    rw [← hone]
    exact List.mem_singleton_self _
  exact Split.reads_of_mem_lexemes hmem

private theorem tokenize_items {lead : List Char} {items : List (Lexeme × List Char)}
    (hl : Separator lead) (hr : ∀ item ∈ items, ∃ following, Reads options item.1 following)
    (hs : ∀ item ∈ items, Separator item.2) (hn : ∀ item ∈ items.dropLast, item.2 ≠ []) :
    ∃ tokens, tokenize options (lead ++ printed items) = .ok tokens ∧
      tokens.map (·.toLexeme) = items.map (·.1) ++ [{ kind := .endOfInput, text := [] }] := by
  obtain ⟨hlexemes, hstop⟩ := Split.ofText_printed hr hs hn
  obtain ⟨hlead, hleadStop⟩ := Split.ofText_separator options hl (printed items)
  obtain ⟨tokens, ht⟩ := exists_tokenize (hleadStop.trans hstop)
  exact ⟨tokens, ht, by rw [lexemes_of_tokenize ht, hlead, hlexemes]⟩

theorem intercalate_concat (gap : List Char) (front : List (List Char)) (last : List Char) :
    gap.intercalate (front ++ [last]) = (front.flatMap fun text => text ++ gap) ++ last := by
  induction front with
  | nil => simp [List.intercalate]
  | cons text front ih =>
    cases front with
    | nil => simp [List.intercalate]
    | cons next front =>
      simp only [List.intercalate, List.cons_append, List.intersperse_cons_cons,
        List.flatten_cons, List.flatMap_cons, List.append_assoc] at ih ⊢
      rw [ih]

private theorem map_fst_spaced (front : List Lexeme) :
    (front.map fun lexeme => (lexeme, [' '])).map (·.1) = front := by
  rw [List.map_map]
  exact List.map_id' front

private theorem separator_spaced (front : List Lexeme) :
    ∀ item ∈ front.map fun lexeme => (lexeme, [' ']), Separator item.2 ∧ item.2 ≠ [] := by
  intro item hitem
  obtain ⟨lexeme, -, rfl⟩ := List.mem_map.mp hitem
  exact ⟨.blank (.inl rfl) .nil, List.cons_ne_nil _ _⟩

private theorem tokenize_joined {found : List Lexeme}
    (hr : ∀ lexeme ∈ found, ∃ following, Reads options lexeme following)
    {texts : List (List Char)} (ht : texts = found.map (·.text) ++ [[]] ∨ texts = found.map (·.text)) :
    ∃ tokens, tokenize options ([' '].intercalate texts) = .ok tokens ∧
      tokens.map (·.toLexeme) = found ++ [{ kind := .endOfInput, text := [] }] := by
  have hitems {items : List (Lexeme × List Char)} (hfound : items.map (·.1) = found)
      (hs : ∀ item ∈ items, Separator item.2) (hn : ∀ item ∈ items.dropLast, item.2 ≠ []) :
      ∃ tokens, tokenize options (printed items) = .ok tokens ∧
        tokens.map (·.toLexeme) = found ++ [{ kind := .endOfInput, text := [] }] := by
    rw [← hfound]
    refine tokenize_items .nil (fun item hitem => hr item.1 ?_) hs hn
    rw [← hfound]
    exact List.mem_map_of_mem hitem
  rcases ht with rfl | rfl
  · have hprinted : [' '].intercalate (found.map (·.text) ++ [[]]) =
        printed (found.map fun lexeme => (lexeme, [' '])) := by
      simp [intercalate_concat, printed, List.flatMap_map]
    rw [hprinted]
    exact hitems (map_fst_spaced found) (fun item hitem => (separator_spaced found item hitem).1)
      (fun item hitem => (separator_spaced found item (List.mem_of_mem_dropLast hitem)).2)
  · rcases found.eq_nil_or_concat' with rfl | ⟨front, last, rfl⟩
    · exact @hitems [] rfl (by simp) (by simp)
    · have hprinted : [' '].intercalate ((front ++ [last]).map (·.text)) =
          printed ((front.map fun lexeme => (lexeme, [' '])) ++ [(last, [])]) := by
        simp [intercalate_concat, printed, List.flatMap_map]
      rw [hprinted]
      refine hitems ?_ ?_ ?_
      · rw [List.map_append, map_fst_spaced, List.map_singleton]
      · intro item hitem
        rcases List.mem_append.mp hitem with hitem | hitem
        · exact (separator_spaced front item hitem).1
        · rw [List.mem_singleton.mp hitem]
          exact .nil
      · rw [List.dropLast_concat]
        exact fun item hitem => (separator_spaced front item hitem).2

/-- Tokenizing undoes printing: texts that are one token each give these tokens again, whatever
separators stand between them, and so do the texts of a token list joined by spaces. -/
theorem tokenize_printed (options : Options) :
    (∀ lead items, Separator lead → (∀ item ∈ items, Alone options item.1 ∧ Separator item.2) →
      (∀ item ∈ items.dropLast, item.2 ≠ []) →
      ∃ tokens, tokenize options (lead ++ printed items) = .ok tokens ∧
        tokens.map (·.toLexeme) = items.map (·.1) ++ [{ kind := .endOfInput, text := [] }]) ∧
    ∀ source tokens, tokenize options source = .ok tokens →
      ∀ texts ∈ [tokens.map (·.text), tokens.dropLast.map (·.text)],
        ∃ again, tokenize options ([' '].intercalate texts) = .ok again ∧
          again.map (·.toLexeme) = tokens.map (·.toLexeme) := by
  constructor
  · intro lead items hl hitems hn
    exact tokenize_items hl (fun item hitem => (hitems item hitem).1.reads)
      (fun item hitem => (hitems item hitem).2) hn
  · intro source tokens h texts htexts
    have hlexemes := lexemes_of_tokenize h
    have hall : tokens.map (·.text) =
        (Split.ofText options source).lexemes.map (·.text) ++ [[]] := by
      have hmap := congrArg (List.map Lexeme.text) hlexemes
      rw [List.map_map, List.map_append] at hmap
      exact hmap
    have hfront : tokens.dropLast.map (·.text) =
        (Split.ofText options source).lexemes.map (·.text) := by
      rw [List.map_dropLast, hall, List.dropLast_concat]
    rw [hlexemes]
    refine tokenize_joined (fun lexeme => Split.reads_of_mem_lexemes) ?_
    rw [List.mem_cons, List.mem_singleton, hall, hfront] at htexts
    exact htexts

private theorem alone_of_lexemes {found last : Lexeme}
    (h : (tokenize options found.text).toOption.map (·.map (·.toLexeme)) = some [found, last]) :
    Alone options found := by
  obtain ⟨tokens, ht, he⟩ := exists_tokens h
  obtain ⟨t, later, rfl, hfirst, hlater⟩ := List.map_eq_cons_iff.mp he
  obtain ⟨_, _, rfl, -, hnil⟩ := List.map_eq_cons_iff.mp hlater
  rw [List.map_eq_nil_iff] at hnil
  rw [hnil] at ht
  exact ⟨t, _, ht, hfirst⟩

/-- A minus sign and a number stay apart behind a comment, and joined they come apart once. -/
theorem printed_minus_and_number :
    (∃ minus five : Lexeme, minus.text = ['-'] ∧ five.text = ['5'] ∧ five.intValue = some 5 ∧
      Separator ['\t'] ∧ Separator ['#', '\n'] ∧ Alone { } minus ∧ Alone { } five ∧
      ∃ tokens, tokenize { } "\t-#\n5".toList = .ok tokens ∧
        tokens.map (·.toLexeme) = [minus, five, { kind := .endOfInput, text := [] }]) ∧
    ∃ tokens, tokenize { } "x=-5".toList = .ok tokens ∧
      tokens.map (·.text) = [['x'], ['='], ['-', '5'], []] ∧
      ∃ again, tokenize { } "x = -5 ".toList = .ok again ∧
        again.map (·.toLexeme) = tokens.map (·.toLexeme) := by
  constructor
  · let minus : Lexeme := { kind := .minus, text := ['-'] }
    let five : Lexeme := { kind := .intLiteral, text := ['5'], intValue := some 5 }
    have htab : Separator ['\t'] := .blank (.inr rfl) .nil
    have hcomment : Separator ['#', '\n'] :=
      @Separator.comment [] ['\n'] [] (fun c hc => nomatch hc) (.inl rfl) .nil
    have hminus : Alone { } minus :=
      alone_of_lexemes (show _ = some [minus, { kind := .endOfInput, text := [] }] by decide +kernel)
    have hfive : Alone { } five :=
      alone_of_lexemes (show _ = some [five, { kind := .endOfInput, text := [] }] by decide +kernel)
    refine ⟨minus, five, rfl, rfl, rfl, htab, hcomment, hminus, hfive, ?_⟩
    exact (tokenize_printed { }).1 ['\t'] [(minus, ['#', '\n']), (five, [])] htab
      (by simp [hminus, hfive, hcomment, Separator.nil]) (by simp)
  · obtain ⟨tokens, h, ht⟩ := exists_tokens
      (show (tokenize { } "x=-5".toList).toOption.map (·.map (·.text)) =
        some [['x'], ['='], ['-', '5'], []] by decide +kernel)
    have hprinted := (tokenize_printed { }).2 _ tokens h (tokens.map (·.text)) (by simp)
    rw [ht] at hprinted
    exact ⟨tokens, h, ht, hprinted⟩

end Tokenize

end Lexing
