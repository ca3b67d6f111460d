import Lexing.Proofs.JsonText

/-!
# Quoted text is read in one way

A quoted text shows its delimiter first. Behind that, each character is read back from the way it is
written: as it is, or as a backslash, a letter and the digits that the letter asks for.
-/

namespace Lexing.Text

def IsQuote (c : Char) : Prop := c = '\x27' ∨ c = '"'

/-- The letters that stand for characters behind a backslash. -/
def letterEscapes : List (Char × Char) := [('n', '\n'), ('r', '\r'), ('t', '\t')]

/-- The letters in front of code points, with the number of hexadecimal digits behind them. -/
def codePointWidths : List (Char × Nat) := [('x', 2), ('u', 4), ('U', 8)]

/-- What stands behind the backslash for a character: a letter and the digits of a code point, if
there are any. -/
inductive Escape (delimiter : Char) : Char → Char → List Char → Prop
  | self {c : Char} (hc : c = delimiter ∨ c = '\\') : Escape delimiter c c []
  | letter {c letter : Char} (hc : (letter, c) ∈ letterEscapes) : Escape delimiter c letter []
  | codePoint {c letter : Char} {width : Nat} (hw : (letter, width) ∈ codePointWidths)
      (hc : c.toNat < 16 ^ width) : Escape delimiter c letter (hexadecimal width c.toNat)

theorem isQuote_quoteDelimiter (text : List Char) : IsQuote (quoteDelimiter text) := by
  unfold quoteDelimiter
  split
  · exact .inr rfl
  · exact .inl rfl

/-- A character is quoted as it is or by an escape. -/
theorem quoteChar_cases (delimiter c : Char) :
    (c ≠ delimiter ∧ c ≠ '\\' ∧ quoteChar delimiter c = [c]) ∨
      ∃ letter digits, Escape delimiter c letter digits ∧
        quoteChar delimiter c = '\\' :: letter :: digits := by
  have hcode : ∃ letter digits, Escape delimiter c letter digits ∧
      codePointEscape c = '\\' :: letter :: digits := by
    have hvalid : c.toNat < 16 ^ 8 := by
      have := toNat_valid c
      omega
    unfold codePointEscape
    split_ifs with htwo hfour
    · exact ⟨'x', _, .codePoint (by decide) htwo, rfl⟩
    · exact ⟨'u', _, .codePoint (by decide) hfour, rfl⟩
    · exact ⟨'U', _, .codePoint (by decide) hvalid, rfl⟩
  unfold quoteChar
  split_ifs with hself hfeed hreturn htab hplain
  · exact .inr ⟨c, [], .self hself, rfl⟩
  · exact .inr ⟨'n', [], .letter (by rw [hfeed]; decide), rfl⟩
  · exact .inr ⟨'r', [], .letter (by rw [hreturn]; decide), rfl⟩
  · exact .inr ⟨'t', [], .letter (by rw [htab]; decide), rfl⟩
  · exact .inl ⟨fun h => hself (.inl h), fun h => hself (.inr h), rfl⟩
  · exact .inr hcode

section Unique

variable {delimiter c c' letter : Char} {digits digits' rest rest' : List Char}

theorem not_self_of_letter (hq : IsQuote delimiter)
    (h : (∃ c, (letter, c) ∈ letterEscapes) ∨ ∃ width, (letter, width) ∈ codePointWidths) :
    ¬ (letter = delimiter ∨ letter = '\\') := by
  have hletters : ∀ entry ∈ letterEscapes, ¬ (IsQuote entry.1 ∨ entry.1 = '\\') := by
    unfold IsQuote
    decide
  have hwidths : ∀ entry ∈ codePointWidths, ¬ (IsQuote entry.1 ∨ entry.1 = '\\') := by
    unfold IsQuote
    decide
  intro hself
  have hmark := hself.imp_left fun heq => heq ▸ hq
  rcases h with ⟨c, hc⟩ | ⟨width, hw⟩
  · exact hletters _ hc hmark
  · exact hwidths _ hw hmark

theorem letterEscapes_unique (h : (letter, c) ∈ letterEscapes) (h' : (letter, c') ∈ letterEscapes) :
    c = c' := by
  have hall : ∀ entry ∈ letterEscapes, ∀ other ∈ letterEscapes, entry.1 = other.1 →
      entry.2 = other.2 := by decide
  exact hall _ h _ h' rfl

theorem codePointWidths_unique {width width' : Nat} (h : (letter, width) ∈ codePointWidths)
    (h' : (letter, width') ∈ codePointWidths) : 0 < width ∧ width = width' := by
  have hall : ∀ entry ∈ codePointWidths, ∀ other ∈ codePointWidths, entry.1 = other.1 →
      0 < entry.2 ∧ entry.2 = other.2 := by decide
  exact hall _ h _ h' rfl

theorem not_mem_codePointWidths (h : (letter, c) ∈ letterEscapes) (width : Nat) :
    (letter, width) ∉ codePointWidths := by
  have hall : ∀ entry ∈ letterEscapes, ∀ other ∈ codePointWidths, entry.1 ≠ other.1 := by decide
  exact fun h' => hall _ h _ h' rfl

/-- The letter tells which escape it is, and how many digits belong to it. -/
theorem Escape.unique (hq : IsQuote delimiter) (h : Escape delimiter c letter digits)
    (h' : Escape delimiter c' letter digits') (he : digits ++ rest = digits' ++ rest') :
    c = c' ∧ rest = rest' := by
  cases h with
  | self hself =>
    cases h' with
    | self _ => exact ⟨rfl, he⟩
    | letter hc' => exact absurd hself (not_self_of_letter hq (.inl ⟨_, hc'⟩))
    | codePoint hw' _ => exact absurd hself (not_self_of_letter hq (.inr ⟨_, hw'⟩))
  | letter hc =>
    cases h' with
    | self hself => exact absurd hself (not_self_of_letter hq (.inl ⟨_, hc⟩))
    | letter hc' => exact ⟨letterEscapes_unique hc hc', he⟩
    | codePoint hw' _ => exact absurd hw' (not_mem_codePointWidths hc _)
  | codePoint hw hn =>
    cases h' with
    | self hself => exact absurd hself (not_self_of_letter hq (.inr ⟨_, hw⟩))
    | letter hc' => exact absurd hw (not_mem_codePointWidths hc' _)
    | codePoint hw' hn' =>
      obtain ⟨hpos, rfl⟩ := codePointWidths_unique hw hw'
      obtain ⟨hdigits, hrest⟩ := List.append_inj he
        ((length_hexadecimal hpos hn).trans (length_hexadecimal hpos hn').symm)
      have hvalue : c.toNat = c'.toNat := by
        rw [← hexValue_hexadecimal _ c.toNat, hdigits, hexValue_hexadecimal]
      exact ⟨Char.toNat_inj.mp hvalue, hrest⟩

theorem quoteChar_unique (hq : IsQuote delimiter)
    (he : quoteChar delimiter c ++ rest = quoteChar delimiter c' ++ rest') :
    c = c' ∧ rest = rest' := by
  rcases quoteChar_cases delimiter c with ⟨-, hback, hplain⟩ | ⟨letter, digits, hesc, htext⟩ <;>
    rcases quoteChar_cases delimiter c' with ⟨-, hback', hplain'⟩ | ⟨letter', digits', hesc', htext'⟩
  · rw [hplain, hplain'] at he
    exact List.cons.inj he
  · rw [hplain, htext'] at he
    exact absurd (List.cons.inj he).1 hback
  · rw [htext, hplain'] at he
    exact absurd (List.cons.inj he).1.symm hback'
  · rw [htext, htext'] at he
    obtain ⟨rfl, hbehind⟩ := List.cons.inj (List.cons.inj he).2
    exact hesc.unique hq hesc' hbehind

/-- No character is quoted in a way that begins like the end of the quoted text. -/
theorem quoteChar_append_ne (hq : IsQuote delimiter) :
    quoteChar delimiter c ++ rest ≠ delimiter :: rest' := by
  intro he
  rcases quoteChar_cases delimiter c with ⟨hother, -, hplain⟩ | ⟨letter, digits, -, htext⟩
  · rw [hplain] at he
    exact hother (List.cons.inj he).1
  · rw [htext] at he
    have hback : IsQuote '\\' := (List.cons.inj he).1 ▸ hq
    exact absurd hback (by unfold IsQuote; decide)

theorem quoted_unique (hq : IsQuote delimiter) {text text' : List Char}
    (he : text.flatMap (quoteChar delimiter) ++ delimiter :: rest =
      text'.flatMap (quoteChar delimiter) ++ delimiter :: rest') : text = text' ∧ rest = rest' := by
  induction text generalizing text' with
  | nil =>
    cases text' with
    | nil => exact ⟨rfl, (List.cons.inj he).2⟩
    | cons c' text' =>
      rw [List.flatMap_cons, List.append_assoc] at he
      exact absurd he.symm (quoteChar_append_ne hq)
  | cons c text ih =>
    cases text' with
    | nil =>
      rw [List.flatMap_cons, List.append_assoc] at he
      exact absurd he (quoteChar_append_ne hq)
    | cons c' text' =>
      rw [List.flatMap_cons, List.flatMap_cons, List.append_assoc, List.append_assoc] at he
      obtain ⟨rfl, hmore⟩ := quoteChar_unique hq he
      obtain ⟨rfl, hrest⟩ := ih hmore
      exact ⟨rfl, hrest⟩

/-- A text is read back from the way it is quoted. -/
theorem quote_inj {text text' : List Char} : quote text = quote text' ↔ text = text' := by
  refine ⟨?_, congrArg quote⟩
  intro h
  obtain ⟨hdelimiter, hbehind⟩ := List.cons.inj h
  rw [← hdelimiter] at hbehind
  exact (quoted_unique (isQuote_quoteDelimiter text) hbehind).1

end Unique

end Lexing.Text
