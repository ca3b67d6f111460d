import Mathlib
import Lexing.Tokenize

/-!
# Places in a text

A cursor that starts before a text and passes some characters is determined by their number. The
tokens of a text are its lexemes at such cursors, and a diagnostic belongs to such a cursor too.
-/

namespace Lexing

/-- The cursor after the first `n` characters of a text. -/
def cursorAt (loneCr : Bool) (source : List Char) (n : Nat) : Cursor :=
  (Cursor.start source).skip loneCr n

namespace Token

def start (t : Token) : Nat := t.offset.toNat

def stop (t : Token) : Nat := t.start + t.text.length

end Token

namespace Cursor

variable (loneCr : Bool) (cursor : Cursor)

theorem skip_add (m n : Nat) : cursor.skip loneCr (m + n) = (cursor.skip loneCr m).skip loneCr n := by
  induction m generalizing cursor with
  | zero => rw [Nat.zero_add, skip]
  | succ m ih => rw [Nat.succ_add, skip, skip, ih]

@[simp] theorem source_advance : (cursor.advance loneCr).source = cursor.source := by
  unfold advance
  split
  · rfl
  · rename_i c ahead h
    simp [source, h]

@[simp] theorem source_skip (n : Nat) : (cursor.skip loneCr n).source = cursor.source := by
  induction n generalizing cursor with
  | zero => rfl
  | succ n ih => rw [skip, ih, source_advance]

theorem ahead_advance : (cursor.advance loneCr).ahead = cursor.ahead.tail := by
  unfold advance
  split
  · rename_i h
    rw [h, List.tail_nil]
  · rename_i c ahead h
    rw [h, List.tail_cons]

theorem skip_of_ahead_eq_nil (h : cursor.ahead = []) (n : Nat) :
    cursor.skip loneCr n = cursor := by
  induction n with
  | zero => rfl
  | succ n ih =>
    have hstay : cursor.advance loneCr = cursor := by rw [advance, h]
    rw [skip, hstay, ih]

theorem ahead_skip (n : Nat) : (cursor.skip loneCr n).ahead = cursor.ahead.drop n := by
  induction n generalizing cursor with
  | zero => rfl
  | succ n ih => rw [skip, ih, ahead_advance, List.drop_tail]

theorem offset_after (position : Position) (c : Char) (following : Option Char) :
    (position.after loneCr c following).offset = position.offset + 1 := by
  unfold Position.after
  split <;> rfl

theorem offset_skip {n : Nat} (hn : n ≤ cursor.ahead.length) :
    (cursor.skip loneCr n).position.offset = cursor.position.offset + n := by
  induction n generalizing cursor with
  | zero => rfl
  | succ n ih =>
    obtain ⟨behind, ahead, position⟩ := cursor
    cases ahead with
    | nil => simp at hn
    | cons c ahead =>
      have hstep := ih (advance loneCr ⟨behind, c :: ahead, position⟩)
        (by simpa [advance] using hn)
      rw [skip, hstep]
      simp only [advance, offset_after]
      omega

end Cursor

section Places

variable (loneCr : Bool) (source : List Char)

@[simp] theorem skip_cursorAt (m n : Nat) :
    (cursorAt loneCr source m).skip loneCr n = cursorAt loneCr source (m + n) :=
  (Cursor.skip_add loneCr _ m n).symm

@[simp] theorem ahead_cursorAt (n : Nat) : (cursorAt loneCr source n).ahead = source.drop n :=
  Cursor.ahead_skip loneCr _ n

@[simp] theorem source_cursorAt (n : Nat) : (cursorAt loneCr source n).source = source :=
  Cursor.source_skip loneCr _ n

theorem cursorAt_of_length_le {n : Nat} (hn : source.length ≤ n) :
    cursorAt loneCr source n = cursorAt loneCr source source.length := by
  have hend : (cursorAt loneCr source source.length).ahead = [] := by
    rw [ahead_cursorAt, List.drop_length]
  obtain ⟨m, rfl⟩ := Nat.exists_eq_add_of_le hn
  rw [← skip_cursorAt, Cursor.skip_of_ahead_eq_nil loneCr _ hend]

theorem offset_cursorAt {n : Nat} (hn : n ≤ source.length) :
    (cursorAt loneCr source n).position.offset = n :=
  (Cursor.offset_skip loneCr (Cursor.start source) hn).trans (Nat.zero_add n)

variable {source}

theorem drop_of_drop {n : Nat} {text rest : List Char} (h : source.drop n = text ++ rest) :
    source.drop (n + text.length) = rest := by
  rw [← List.drop_drop, h, List.drop_left]

/-- A stretch of a text ends within it. -/
theorem add_length_le_of_drop {n : Nat} {text rest : List Char} (hn : n ≤ source.length)
    (h : source.drop n = text ++ rest) : n + text.length ≤ source.length := by
  have hsum := congrArg List.length h
  rw [List.length_drop, List.length_append] at hsum
  omega

end Places

/-- Line and column, in the order of reading. -/
def Position.place (position : Position) : Nat ×ₗ Nat :=
  toLex (position.line, position.column)

theorem Position.place_lt_place_after (loneCr : Bool) (position : Position) (c : Char)
    (following : Option Char) : position.place < (position.after loneCr c following).place := by
  unfold Position.after
  split
  · exact Prod.Lex.toLex_lt_toLex.mpr (.inl (Nat.lt_succ_self _))
  · exact Prod.Lex.toLex_lt_toLex.mpr (.inr ⟨rfl, Nat.lt_succ_self _⟩)

section Locations

variable {loneCr : Bool} {source : List Char}

theorem cursorAt_succ (n : Nat) :
    cursorAt loneCr source (n + 1) = (cursorAt loneCr source n).advance loneCr :=
  Cursor.skip_add loneCr _ n 1

theorem position_cursorAt_succ {n : Nat} (hn : n < source.length) :
    (cursorAt loneCr source (n + 1)).position =
      (cursorAt loneCr source n).position.after loneCr source[n] source[n + 1]? := by
  have hahead : (cursorAt loneCr source n).ahead = source[n] :: source.drop (n + 1) := by
    rw [ahead_cursorAt, List.drop_eq_getElem_cons hn]
  rw [cursorAt_succ, Cursor.advance, hahead]
  simp only [List.head?_drop]

theorem place_lt_place_succ {n : Nat} (hn : n < source.length) :
    (cursorAt loneCr source n).position.place <
      (cursorAt loneCr source (n + 1)).position.place := by
  rw [position_cursorAt_succ hn]
  exact Position.place_lt_place_after _ _ _ _

theorem place_lt_place {m n : Nat} (hmn : m < n) (hn : n ≤ source.length) :
    (cursorAt loneCr source m).position.place < (cursorAt loneCr source n).position.place := by
  induction n, hmn using Nat.le_induction with
  | base => exact place_lt_place_succ hn
  | succ n hmn ih => exact (ih (Nat.le_of_succ_le hn)).trans (place_lt_place_succ hn)

/-- Different offsets of a text have different locations. -/
theorem eq_of_location_eq {options : Options} {m n : Nat} (hm : m ≤ source.length)
    (hn : n ≤ source.length)
    (h : (cursorAt options.loneCr source m).location options =
      (cursorAt options.loneCr source n).location options) : m = n := by
  have hplace : (cursorAt options.loneCr source m).position.place =
      (cursorAt options.loneCr source n).position.place := by
    have hline := Int.ofNat.inj (congrArg Location.line h)
    have hcolumn := Int.ofNat.inj (congrArg Location.column h)
    rw [Position.place, Position.place, hline, hcolumn]
  rcases Nat.lt_trichotomy m n with hlt | heq | hgt
  · exact absurd hplace (place_lt_place hlt hn).ne
  · exact heq
  · exact absurd hplace (place_lt_place hgt hm).ne'

end Locations

/-- The number of characters in a row of pieces. -/
def extent (pieces : List Piece) : Nat :=
  (pieces.flatMap Piece.text).length

@[simp] theorem extent_nil : extent [] = 0 := rfl

@[simp] theorem extent_cons (piece : Piece) (pieces : List Piece) :
    extent (piece :: pieces) = piece.text.length + extent pieces := by
  simp [extent]

theorem extent_append (done later : List Piece) :
    extent (done ++ later) = extent done + extent later := by
  simp [extent]

theorem foldl_pass (loneCr : Bool) (cursor : Cursor) (pieces : List Piece) :
    pieces.foldl (Cursor.pass loneCr) cursor = cursor.skip loneCr (extent pieces) := by
  induction pieces generalizing cursor with
  | nil => rfl
  | cons piece pieces ih => rw [List.foldl_cons, ih, Cursor.pass, extent_cons, Cursor.skip_add]

def endToken (options : Options) (source : List Char) (n : Nat) : Token :=
  (cursorAt options.loneCr source n).token options source { kind := .endOfInput, text := [] }

section Tokens

variable (options : Options) (source : List Char)

theorem start_token {n : Nat} (hn : n ≤ source.length) (found : Lexeme) :
    ((cursorAt options.loneCr source n).token options source found).start = n := by
  simp [Cursor.token, Token.start, offset_cursorAt _ _ hn]

@[simp] theorem layOut_nil (n : Nat) :
    (cursorAt options.loneCr source n).layOut options source [] = [endToken options source n] := rfl

@[simp] theorem layOut_blank (n : Nat) (c : Char) (pieces : List Piece) :
    (cursorAt options.loneCr source n).layOut options source (.blank c :: pieces) =
      (cursorAt options.loneCr source (n + 1)).layOut options source pieces := by
  simp only [Cursor.layOut, Cursor.pass, skip_cursorAt]
  rfl

@[simp] theorem layOut_comment (n : Nat) (text : List Char) (pieces : List Piece) :
    (cursorAt options.loneCr source n).layOut options source (.comment text :: pieces) =
      (cursorAt options.loneCr source (n + text.length)).layOut options source pieces := by
  simp only [Cursor.layOut, Cursor.pass, skip_cursorAt]
  rfl

@[simp] theorem layOut_lexeme (n : Nat) (found : Lexeme) (pieces : List Piece) :
    (cursorAt options.loneCr source n).layOut options source (.lexeme found :: pieces) =
      (cursorAt options.loneCr source n).token options source found ::
        (cursorAt options.loneCr source (n + found.text.length)).layOut options source pieces := by
  simp only [Cursor.layOut, Cursor.pass, skip_cursorAt]
  rfl

/-- Where a token stands in a token list, a lexeme or the end of the pieces has been reached. -/
theorem layOut_eq_append {n : Nat} {pieces : List Piece} {front later : List Token} {t : Token}
    (h : (cursorAt options.loneCr source n).layOut options source pieces = front ++ t :: later) :
    ∃ done rest, pieces = done ++ rest ∧
      (cursorAt options.loneCr source (n + extent done)).layOut options source rest = t :: later ∧
      ((∃ found more, rest = .lexeme found :: more ∧
          t = (cursorAt options.loneCr source (n + extent done)).token options source found) ∨
        rest = [] ∧ t = endToken options source (n + extent done)) := by
  induction pieces generalizing n front with
  | nil =>
    rw [layOut_nil, eq_comm, List.append_eq_singleton_iff] at h
    rcases h with ⟨rfl, ht⟩ | ⟨rfl, ht⟩
    · exact ⟨[], [], rfl, ht.symm, .inr ⟨rfl, (List.cons.inj ht).1⟩⟩
    · cases ht
  | cons piece pieces ih =>
    have hbehind {front : List Token}
        (h : (cursorAt options.loneCr source (n + piece.text.length)).layOut options source pieces =
          front ++ t :: later) :
        ∃ done rest, piece :: pieces = done ++ rest ∧
          (cursorAt options.loneCr source (n + extent done)).layOut options source rest =
            t :: later ∧
          ((∃ found more, rest = .lexeme found :: more ∧
              t = (cursorAt options.loneCr source (n + extent done)).token options source found) ∨
            rest = [] ∧ t = endToken options source (n + extent done)) := by
      obtain ⟨done, rest, rfl, hrest, ht⟩ := ih h
      rw [Nat.add_assoc, ← extent_cons] at hrest ht
      exact ⟨piece :: done, rest, rfl, hrest, ht⟩
    cases piece with
    | blank c =>
      rw [layOut_blank] at h
      exact hbehind h
    | comment text =>
      rw [layOut_comment] at h
      exact hbehind h
    | lexeme found =>
      have hlexeme := h
      rw [layOut_lexeme] at hlexeme
      cases front with
      | nil => exact ⟨[], _, rfl, h, .inl ⟨found, pieces, rfl, (List.cons.inj hlexeme).1.symm⟩⟩
      | cons u front => exact hbehind (List.cons.inj hlexeme).2

/-- A token list holds each lexeme at the end of the pieces before it, and the end of input. -/
theorem mem_layOut {n : Nat} {pieces : List Piece} {t : Token}
    (h : t ∈ (cursorAt options.loneCr source n).layOut options source pieces) :
    (∃ done found later, pieces = done ++ .lexeme found :: later ∧
      t = (cursorAt options.loneCr source (n + extent done)).token options source found) ∨
    t = endToken options source (n + extent pieces) := by
  obtain ⟨front, later, h⟩ := List.append_of_mem h
  obtain ⟨done, rest, rfl, -, ⟨found, more, rfl, ht⟩ | ⟨rfl, ht⟩⟩ := layOut_eq_append options source h
  · exact .inl ⟨done, found, more, rfl, ht⟩
  · rw [List.append_nil]
    exact .inr ht

/-- Whatever relates the tokens of one lexeme in two texts relates the token lists of one row of
pieces there. -/
theorem forall₂_layOut {options options' : Options} {source source' : List Char}
    {R : Token → Token → Prop} {n n' : Nat} {pieces : List Piece}
    (h : ∀ m ≤ extent pieces, ∀ found : Lexeme,
      R ((cursorAt options.loneCr source (n + m)).token options source found)
        ((cursorAt options'.loneCr source' (n' + m)).token options' source' found)) :
    List.Forall₂ R ((cursorAt options.loneCr source n).layOut options source pieces)
      ((cursorAt options'.loneCr source' n').layOut options' source' pieces) := by
  induction pieces generalizing n n' with
  | nil => exact .cons (h 0 (Nat.zero_le _) _) .nil
  | cons piece pieces ih =>
    have hlater : ∀ m ≤ extent pieces, ∀ found : Lexeme,
        R ((cursorAt options.loneCr source (n + piece.text.length + m)).token options source found)
          ((cursorAt options'.loneCr source' (n' + piece.text.length + m)).token options' source'
            found) := by
      intro m hm found
      rw [Nat.add_assoc, Nat.add_assoc]
      apply h
      rw [extent_cons]
      omega
    cases piece with
    | blank c =>
      rw [layOut_blank, layOut_blank]
      exact ih hlater
    | comment text =>
      rw [layOut_comment, layOut_comment]
      exact ih hlater
    | lexeme found =>
      rw [layOut_lexeme, layOut_lexeme]
      exact .cons (h 0 (Nat.zero_le _) found) (ih hlater)

theorem layOut_map {options options' : Options} {source source' : List Char} {f : Token → Token}
    {n n' : Nat} {pieces : List Piece}
    (h : ∀ m ≤ extent pieces, ∀ found : Lexeme,
      f ((cursorAt options.loneCr source (n + m)).token options source found) =
        (cursorAt options'.loneCr source' (n' + m)).token options' source' found) :
    ((cursorAt options.loneCr source n).layOut options source pieces).map f =
      (cursorAt options'.loneCr source' n').layOut options' source' pieces := by
  have hall := forall₂_layOut (R := fun t u => f t = u) h
  rwa [← List.forall₂_map_left_iff, List.forall₂_eq_eq_eq] at hall

theorem toLexeme_layOut (n : Nat) (pieces : List Piece) (stop : Option Stop) :
    ((cursorAt options.loneCr source n).layOut options source pieces).map Token.toLexeme =
      Split.lexemes ⟨pieces, stop⟩ ++ [{ kind := .endOfInput, text := [] }] := by
  induction pieces generalizing n with
  | nil => rfl
  | cons piece pieces ih =>
    cases piece with
    | blank c => rw [layOut_blank, ih]; rfl
    | comment text => rw [layOut_comment, ih]; rfl
    | lexeme found => rw [layOut_lexeme, List.map_cons, ih]; rfl

theorem tokenize_eq_ok_iff {tokens : List Token} :
    tokenize options source = .ok tokens ↔
      ∃ pieces, Split.ofText options source = ⟨pieces, none⟩ ∧
        (cursorAt options.loneCr source 0).layOut options source pieces = tokens := by
  have hstart : Cursor.start source = cursorAt options.loneCr source 0 := rfl
  cases hs : Split.ofText options source with
  | mk pieces stop => cases stop <;> simp [tokenize, Cursor.tokenize, hs, hstart]

theorem tokenize_eq_error_iff {d : Diagnostic} :
    tokenize options source = .error d ↔
      ∃ pieces stop, Split.ofText options source = ⟨pieces, some stop⟩ ∧
        (cursorAt options.loneCr source (extent pieces)).diagnose options stop.fault = d := by
  have hstart : Cursor.start source = cursorAt options.loneCr source 0 := rfl
  cases hs : Split.ofText options source with
  | mk pieces stop => cases stop <;> simp [tokenize, Cursor.tokenize, hs, hstart, foldl_pass]

variable {options source}

/-- The token list of a text lists the lexemes of its split, and the end of input. -/
theorem lexemes_of_tokenize {tokens : List Token} (h : tokenize options source = .ok tokens) :
    tokens.map Token.toLexeme =
      (Split.ofText options source).lexemes ++ [{ kind := .endOfInput, text := [] }] := by
  obtain ⟨pieces, hs, rfl⟩ := (tokenize_eq_ok_iff options source).mp h
  rw [hs]
  exact toLexeme_layOut options source 0 pieces none

theorem exists_tokenize (h : (Split.ofText options source).stop = none) :
    ∃ tokens, tokenize options source = .ok tokens := by
  cases hs : Split.ofText options source with
  | mk pieces stop =>
    rw [hs] at h
    obtain rfl : stop = none := h
    exact ⟨_, (tokenize_eq_ok_iff options source).mpr ⟨pieces, hs, rfl⟩⟩

theorem exists_tokens {α : Type} {f : List Token → α} {a : α}
    (h : (tokenize options source).toOption.map f = some a) :
    ∃ tokens, tokenize options source = .ok tokens ∧ f tokens = a := by
  cases ht : tokenize options source with
  | ok tokens =>
    rw [ht] at h
    exact ⟨tokens, rfl, Option.some.inj h⟩
  | error d =>
    rw [ht] at h
    cases h

theorem exists_diagnostic {α : Type} {f : Diagnostic → α} {a : α}
    (h : (tokenize options source).mapError f = .error a) :
    ∃ d, tokenize options source = .error d ∧ f d = a := by
  cases ht : tokenize options source with
  | ok tokens =>
    rw [ht] at h
    cases h
  | error d =>
    rw [ht] at h
    exact ⟨d, rfl, Except.error.inj h⟩

end Tokens

end Lexing
