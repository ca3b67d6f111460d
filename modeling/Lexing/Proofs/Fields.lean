import Lexing.Proofs.DocumentUnique
import Lexing.Proofs.Listing
import Lexing.Proofs.MaximalMunch
import Lexing.Proofs.NumberText

/-!
# The fields of a line

The line of a token shows its place, its kind and its value in columns that are filled up with spaces.
Every kind leaves room for a space behind it. A place of eight characters or more leaves none, so that
the kind stands right behind it.
-/

namespace Lexing

open Numeral (integerText)

/-- A text cut at its first runs of spaces, of which there may be fewer than asked for. -/
def splitAtSpaces : Nat → List Char → List (List Char)
  | 0, text => [text]
  | n + 1, text =>
    match text.dropWhile (· != ' ') with
    | [] => [text]
    | rest => text.takeWhile (· != ' ') :: splitAtSpaces n (rest.dropWhile (· == ' '))

/-- How the value of a token is shown: the number of a number literal, and any other text in quotes. -/
inductive Token.ShowsValue (t : Token) : List Char → Prop
  | integer {v : Int} (hk : t.kind = .intLiteral) (hv : t.intValue = some v) :
      ShowsValue t (integerText v)
  | real {x : Numeral.Binary64} (hk : t.kind = .floatLiteral) (hx : t.floatValue = some x) :
      ShowsValue t x.text
  | text (hi : t.kind ≠ .intLiteral) (hf : t.kind ≠ .floatLiteral) :
      ShowsValue t (Text.quote t.text)

/-- The field for the value, which the end of input does not have. -/
def Token.valueField (t : Token) (shown : List Char) : List (List Char) :=
  if t.kind = .endOfInput then [] else [shown]

/-- What stands behind the kind of a token. -/
def Token.behindKind (t : Token) : List Char :=
  if t.kind = .endOfInput then []
  else List.replicate (16 - t.kind.name.toList.length) ' ' ++ t.value.shown

section Splitting

variable {word rest : List Char}

theorem splitAtSpaces_word (n : Nat) (h : ' ' ∉ word) : splitAtSpaces n word = [word] := by
  have hword : word.dropWhile (· != ' ') = [] :=
    List.dropWhile_eq_nil_iff.mpr fun c hc => bne_iff_ne.mpr (ne_of_mem_of_not_mem hc h)
  cases n with
  | zero => rfl
  | succ n => rw [splitAtSpaces, hword]

theorem splitAtSpaces_field (n : Nat) (h : ' ' ∉ word) {gap : Nat} (hg : 0 < gap)
    (hr : rest.head? ≠ some ' ') :
    splitAtSpaces (n + 1) (word ++ (List.replicate gap ' ' ++ rest)) =
      word :: splitAtSpaces n rest := by
  have hword : ∀ c ∈ word, (c != ' ') = true :=
    fun c hc => bne_iff_ne.mpr (ne_of_mem_of_not_mem hc h)
  have hgap : ∀ c ∈ List.replicate gap ' ', (c == ' ') = true :=
    fun c hc => beq_iff_eq.mpr (List.eq_of_mem_replicate hc)
  have hrest : EndsRun (· == ' ') rest.head? :=
    fun c hc => beq_eq_false_iff_ne.mpr fun heq => hr (heq ▸ hc)
  obtain ⟨gap, rfl⟩ := Nat.exists_eq_succ_of_ne_zero hg.ne'
  have hends : EndsRun (· != ' ') (List.replicate (gap + 1) ' ' ++ rest).head? := by
    simp [List.replicate_succ]
  have hbehind := dropWhile_run hword hends
  rw [List.replicate_succ, List.cons_append] at hbehind
  rw [splitAtSpaces, takeWhile_run hword hends, List.replicate_succ, List.cons_append, hbehind]
  dsimp only
  rw [← List.cons_append, ← List.replicate_succ, dropWhile_run hgap hrest]

end Splitting

section Lines

variable {t : Token} {shown : List Char}

theorem blank_not_mem_placeText (line column : Int) : ' ' ∉ placeText line column := by
  have hinteger := not_mem_integerText (c := ' ') (by decide) (by decide)
  rw [placeText, List.mem_append, List.mem_cons, not_or, not_or]
  exact ⟨hinteger line, by decide, hinteger column⟩

/-- The name of a kind is a word that leaves room for a space in a column of sixteen. -/
theorem name_fits (kind : TokenKind) : (∃ c more, kind.name.toList = c :: more ∧ isWordStart c = true) ∧
    ' ' ∉ kind.name.toList ∧ kind.name.toList.length < 16 := by
  cases kind
  all_goals exact ⟨⟨_, _, rfl, by decide⟩, by decide, by decide⟩

/-- The columns of a line. -/
theorem line_eq (t : Token) : Listing.line t = placeText t.line t.column ++
    (List.replicate (8 - (placeText t.line t.column).length) ' ' ++
      (t.kind.name.toList ++ t.behindKind)) := by
  unfold Listing.line Token.behindKind
  dsimp only
  split
  · rename_i hkind
    rw [if_pos hkind, List.append_nil]
    exact List.append_assoc _ _ _
  · rename_i hkind
    rw [if_neg hkind]
    simp only [List.rightpad, List.append_assoc]

theorem Lexeme.value_of_text {found : Lexeme} (hi : found.kind ≠ .intLiteral)
    (hf : found.kind ≠ .floatLiteral) : found.value = .text found.text := by
  unfold Lexeme.value
  split
  · exact absurd ‹_› hi
  · exact absurd ‹_› hf
  · rfl

theorem Token.ShowsValue.eq_shown (h : t.ShowsValue shown) : t.value.shown = shown := by
  cases h with
  | integer hk hv => simp [Lexeme.value, hk, hv, Value.shown]
  | real hk hx => simp [Lexeme.value, hk, hx, Value.shown]
  | text hi hf => rw [Lexeme.value_of_text hi hf, Value.shown]

theorem Token.ShowsValue.head?_ne (h : t.ShowsValue shown) : shown.head? ≠ some ' ' := by
  have hnumber {text : List Char} (hhead : ∃ c more, text = c :: more ∧ (c = '-' ∨ isDigit c = true)) :
      text.head? ≠ some ' ' := by
    obtain ⟨c, more, rfl, hc⟩ := hhead
    rw [List.head?_cons, ne_eq, Option.some_inj]
    rintro rfl
    exact absurd hc (by decide)
  cases h with
  | integer hk hv => exact hnumber (numberText_integerText _).head
  | real hk hx => exact hnumber (numberText_text _).head
  | text hi hf =>
    rw [Text.quote, List.head?_cons, Text.quoteDelimiter]
    split <;> decide

/-- A value is a field of its own, whatever it holds and whatever word is in front of the kind. -/
theorem splitAtSpaces_kind (h : t.ShowsValue shown) {front : List Char} (hf : ' ' ∉ front) (n : Nat) :
    splitAtSpaces (n + 1) (front ++ (t.kind.name.toList ++ t.behindKind)) =
      (front ++ t.kind.name.toList) ::
        if t.kind = .endOfInput then [] else splitAtSpaces n shown := by
  obtain ⟨-, hname, hlength⟩ := name_fits t.kind
  have hword : ' ' ∉ front ++ t.kind.name.toList := by
    rw [List.mem_append, not_or]
    exact ⟨hf, hname⟩
  unfold Token.behindKind
  split
  · rw [List.append_nil, splitAtSpaces_word _ hword]
  · rw [h.eq_shown, ← List.append_assoc, splitAtSpaces_field _ hword (by omega) h.head?_ne]

/-- The fields of a line with room behind the place. -/
theorem splitAtSpaces_line_of_lt (h : t.ShowsValue shown)
    (hplace : (placeText t.line t.column).length < 8) : splitAtSpaces 2 (Listing.line t) =
      placeText t.line t.column :: t.kind.name.toList :: t.valueField shown := by
  have hhead : (t.kind.name.toList ++ t.behindKind).head? ≠ some ' ' := by
    obtain ⟨⟨c, more, hname, hc⟩, -, -⟩ := name_fits t.kind
    rw [hname, List.cons_append, List.head?_cons, ne_eq, Option.some_inj]
    rintro rfl
    exact absurd hc (by decide)
  rw [line_eq, splitAtSpaces_field 1 (blank_not_mem_placeText _ _) (by omega) hhead]
  exact congrArg _ (splitAtSpaces_kind h List.not_mem_nil 0)

/-- Without room behind the place, the kind is in one field with it. -/
theorem splitAtSpaces_line_of_le (h : t.ShowsValue shown) (n : Nat)
    (hplace : 8 ≤ (placeText t.line t.column).length) : splitAtSpaces (n + 1) (Listing.line t) =
      (placeText t.line t.column ++ t.kind.name.toList) ::
        if t.kind = .endOfInput then [] else splitAtSpaces n shown := by
  rw [line_eq, Nat.sub_eq_zero_of_le hplace, List.replicate_zero, List.nil_append]
  exact splitAtSpaces_kind h (blank_not_mem_placeText _ _) n

end Lines

section Tokenize

variable {options : Options} {source : List Char} {tokens : List Token} {t : Token}

/-- Every token of a token list has a value to be shown. -/
theorem exists_showsValue (h : tokenize options source = .ok tokens) (ht : t ∈ tokens) :
    ∃ shown, t.ShowsValue shown := by
  obtain ⟨hint, hfloat⟩ := numbers_of_tokenize h ht
  by_cases hi : t.kind = .intLiteral
  · obtain ⟨v, hv⟩ := hint hi
    exact ⟨_, .integer hi hv⟩
  · by_cases hf : t.kind = .floatLiteral
    · obtain ⟨x, hx⟩ := hfloat hf
      exact ⟨_, .real hf hx⟩
    · exact ⟨_, .text hi hf⟩

/-- The line of a token has its place, its kind and its value as fields exactly if the place has
fewer than eight characters. Otherwise it has the place and the kind as one field. -/
theorem line_fields_iff (h : tokenize options source = .ok tokens) (ht : t ∈ tokens) :
    let place := placeText t.line t.column
    let kind := t.kind.name.toList
    ∃ shown, t.ShowsValue shown ∧
      (splitAtSpaces 2 (Listing.line t) = place :: kind :: t.valueField shown ↔ place.length < 8) ∧
      (8 ≤ place.length → splitAtSpaces 1 (Listing.line t) = (place ++ kind) :: t.valueField shown) := by
  intro place kind
  obtain ⟨shown, hshown⟩ := exists_showsValue h ht
  refine ⟨shown, hshown, ⟨?_, splitAtSpaces_line_of_lt hshown⟩, splitAtSpaces_line_of_le hshown 0⟩
  intro hfields
  by_contra hlong
  rw [splitAtSpaces_line_of_le hshown 1 (Nat.le_of_not_lt hlong)] at hfields
  -- the kind would have to be empty for the first field to be the place
  have hnone : kind = [] := List.append_right_eq_self.mp (List.cons.inj hfields).1
  obtain ⟨⟨c, more, hname, -⟩, -, -⟩ := name_fits t.kind
  exact List.cons_ne_nil c more (hname.symm.trans hnone)

/-- A string with two spaces in it is one field. -/
theorem fields_of_string : ∃ tokens t, tokenize { } "x \"a  b\"".toList = .ok tokens ∧ t ∈ tokens ∧
    splitAtSpaces 2 (Listing.line t) =
      ["1:3".toList, "STRING_LITERAL".toList, "'\"a  b\"'".toList] := by
  obtain ⟨tokens, h, hf⟩ := exists_tokens
    (show (tokenize { } "x \"a  b\"".toList).toOption.map
      (·[1]?.map fun t => (t.kind, t.text, t.line, t.column)) =
        some (some (.stringLiteral, "\"a  b\"".toList, 1, 3)) by
      decide +kernel)
  obtain ⟨t, ht, he⟩ := Option.map_eq_some_iff.mp hf
  simp only [Prod.mk.injEq] at he
  obtain ⟨hkind, htext, hline, hcolumn⟩ := he
  have hmem := List.mem_of_getElem? ht
  obtain ⟨shown, hshown, hfields, -⟩ := line_fields_iff h hmem
  have hplace : (placeText t.line t.column).length < 8 := by
    rw [hline, hcolumn]
    decide
  refine ⟨tokens, t, h, hmem, (hfields.mpr hplace).trans ?_⟩
  have hvalue : shown = "'\"a  b\"'".toList := by
    cases hshown with
    | integer hk hv => exact absurd (hkind.symm.trans hk) (by decide)
    | real hk hx => exact absurd (hkind.symm.trans hk) (by decide)
    | text hi hf =>
      rw [htext]
      decide
  rw [Token.valueField, hkind, hvalue, hline, hcolumn]
  decide

/-- On line 1000 nothing stands between the column 100 and the kind. -/
theorem kind_joins_wide_place :
    ∃ tokens t shown, tokenize { } (List.replicate 999 '\n' ++ List.replicate 99 ' ' ++ ['x']) =
        .ok tokens ∧ t ∈ tokens ∧ t.ShowsValue shown ∧
      Listing.line t = "1000:100IDENTIFIER      'x'".toList ∧
      splitAtSpaces 2 (Listing.line t) ≠
        placeText t.line t.column :: t.kind.name.toList :: t.valueField shown := by
  obtain ⟨tokens, h, hf⟩ := exists_tokens
    (show (tokenize { } (List.replicate 999 '\n' ++ List.replicate 99 ' ' ++ ['x'])).toOption.map
      (·[999]?.map fun t => (t.kind, t.line, t.column, Listing.line t)) =
        some (some (.identifier, 1000, 100, "1000:100IDENTIFIER      'x'".toList)) by
      decide +kernel)
  obtain ⟨t, ht, he⟩ := Option.map_eq_some_iff.mp hf
  simp only [Prod.mk.injEq] at he
  obtain ⟨hkind, hline, hcolumn, hshown⟩ := he
  refine ⟨tokens, t, _, h, List.mem_of_getElem? ht, .text (by simp [hkind]) (by simp [hkind]),
    hshown, ?_⟩
  intro hfields
  rw [hshown, hline, hcolumn] at hfields
  have hfirst := (List.cons.inj hfields).1
  revert hfirst
  decide

end Tokenize

end Lexing
