import Lexing.Proofs.Pieces
import Lexing.Proofs.Placement

/-!
# Partition of a text

The tokens of a text and the gaps between them are the whole text, cut into stretches. Every gap is
blanks and whole comments, and only the last token is empty.
-/

namespace Lexing

/-- The characters of a text from one offset to another. -/
def between (source : List Char) (first last : Nat) : List Char :=
  (source.drop first).take (last - first)

/-- Gaps and token texts in turn, from an offset on. -/
def stretches (source : List Char) : Nat → List Token → List (List Char)
  | _, [] => []
  | n, t :: tokens => between source n t.start :: t.text :: stretches source t.stop tokens

/-- A token list cuts a text into its lexemes and nothing but trivia between them. -/
structure Partition (loneCr : Bool) (source : List Char) (tokens : List Token) : Prop where
  ends : ∃ (front : List Token) (last : Token), tokens = front ++ [last] ∧
    last.kind = .endOfInput ∧ last.text = [] ∧ last.offset = source.length ∧
    ∀ t ∈ front, t.kind ≠ .endOfInput ∧ t.text ≠ []
  cut : ∀ t ∈ tokens, 0 ≤ t.offset ∧ between source t.start t.stop = t.text
  ordered : tokens.IsChain fun a b : Token => a.offset + a.text.length ≤ b.offset
  leading : ∀ t ∈ tokens.head?, Trivia loneCr (between source 0 t.start) (source.drop t.start)
  spaced : tokens.IsChain fun a b : Token =>
    Trivia loneCr (between source a.stop b.start) (source.drop b.start)
  rebuilt : (stretches source 0 tokens).flatten = source

section Between

variable (source : List Char)

@[simp] theorem between_self (n : Nat) : between source n n = [] := by
  simp [between]

theorem between_succ {first n : Nat} (h : first ≤ n) (hn : n < source.length) :
    between source first (n + 1) = between source first n ++ [source[n]] := by
  have hlen : n - first < (source.drop first).length := by
    rw [List.length_drop]
    omega
  rw [between, Nat.sub_add_comm h, List.take_succ_eq_append_getElem hlen, List.getElem_drop]
  simp only [Nat.add_sub_cancel' h, between]

theorem between_append_drop {first last : Nat} (h : first ≤ last) :
    between source first last ++ source.drop last = source.drop first := by
  have hdrop : source.drop last = (source.drop first).drop (last - first) := by
    rw [List.drop_drop, Nat.add_sub_cancel' h]
  rw [between, hdrop, List.take_append_drop]

theorem between_of_drop {n : Nat} {text rest : List Char} (h : source.drop n = text ++ rest) :
    between source n (n + text.length) = text := by
  rw [between, h, Nat.add_sub_cancel_left, List.take_left]

theorem between_of_drop_append {n last : Nat} {text rest : List Char}
    (h : source.drop n = text ++ rest) (hl : n + text.length ≤ last) :
    between source n last = text ++ between source (n + text.length) last := by
  have hlen : last - n = text.length + (last - (n + text.length)) := by omega
  rw [between, between, drop_of_drop h, h, hlen, List.take_length_add_append]

end Between

/-- A token lies in a text behind an offset, with nothing but trivia before it. -/
structure Token.Lies (loneCr : Bool) (source : List Char) (n : Nat) (t : Token) : Prop where
  nonneg : 0 ≤ t.offset
  le_start : n ≤ t.start
  cut : between source t.start t.stop = t.text
  trivia : Trivia loneCr (between source n t.start) (source.drop t.start)

/-- Tokens that lie in a text one behind the other, up to its end. -/
inductive Tiled (loneCr : Bool) (source : List Char) : Nat → List Token → Prop
  | last {n : Nat} {t : Token} (hl : t.Lies loneCr source n) (hk : t.kind = .endOfInput)
      (ht : t.text = []) (ho : t.offset = source.length) : Tiled loneCr source n [t]
  | cons {n : Nat} {t : Token} {tokens : List Token} (hl : t.Lies loneCr source n)
      (hk : t.kind ≠ .endOfInput) (ht : t.text ≠ []) (h : Tiled loneCr source t.stop tokens) :
      Tiled loneCr source n (t :: tokens)

section Tiles

variable {loneCr : Bool} {source : List Char} {n : Nat} {tokens : List Token}

/-- Trivia in front of a token leaves it where it lies. -/
theorem Token.Lies.prepend {t : Token} {text : List Char}
    (htext : source.drop n = text ++ source.drop (n + text.length))
    (htrivia : ∀ gap rest, gap ++ rest = source.drop (n + text.length) → Trivia loneCr gap rest →
      Trivia loneCr (text ++ gap) rest)
    (h : t.Lies loneCr source (n + text.length)) : t.Lies loneCr source n where
  nonneg := h.nonneg
  le_start := Nat.le_of_add_right_le h.le_start
  cut := h.cut
  trivia := by
    rw [between_of_drop_append source htext h.le_start]
    exact htrivia _ _ (between_append_drop source h.le_start) h.trivia

theorem Tiled.prepend {text : List Char}
    (htext : source.drop n = text ++ source.drop (n + text.length))
    (htrivia : ∀ gap rest, gap ++ rest = source.drop (n + text.length) → Trivia loneCr gap rest →
      Trivia loneCr (text ++ gap) rest)
    (h : Tiled loneCr source (n + text.length) tokens) : Tiled loneCr source n tokens := by
  cases h with
  | last hl hk ht ho => exact .last (hl.prepend htext htrivia) hk ht ho
  | cons hl hk ht h => exact .cons (hl.prepend htext htrivia) hk ht h

theorem Tiled.lies_head (h : Tiled loneCr source n tokens) :
    ∀ t ∈ tokens.head?, t.Lies loneCr source n := by
  cases h with
  | last hl _ _ _ => simpa using hl
  | cons hl _ _ _ => simpa using hl

theorem Tiled.ends (h : Tiled loneCr source n tokens) :
    ∃ (front : List Token) (last : Token), tokens = front ++ [last] ∧
      last.kind = .endOfInput ∧ last.text = [] ∧ last.offset = source.length ∧
      ∀ t ∈ front, t.kind ≠ .endOfInput ∧ t.text ≠ [] := by
  induction h with
  | @last n t hl hk ht ho => exact ⟨[], t, rfl, hk, ht, ho, by simp⟩
  | @cons n t tokens hl hk ht h ih =>
    obtain ⟨front, last, rfl, hkl, htl, hol, hfront⟩ := ih
    refine ⟨t :: front, last, rfl, hkl, htl, hol, ?_⟩
    intro u hu
    rcases List.mem_cons.mp hu with rfl | hu
    · exact ⟨hk, ht⟩
    · exact hfront u hu

theorem Tiled.cut (h : Tiled loneCr source n tokens) :
    ∀ t ∈ tokens, 0 ≤ t.offset ∧ between source t.start t.stop = t.text := by
  induction h with
  | last hl hk ht ho => simpa using ⟨hl.nonneg, hl.cut⟩
  | cons hl hk ht h ih => exact List.forall_mem_cons.mpr ⟨⟨hl.nonneg, hl.cut⟩, ih⟩

theorem Tiled.isChain (h : Tiled loneCr source n tokens) :
    tokens.IsChain fun a b : Token => 0 ≤ a.offset ∧ b.Lies loneCr source a.stop := by
  induction h with
  | last hl hk ht ho => exact .singleton _
  | cons hl hk ht h ih =>
    exact List.isChain_cons.mpr ⟨fun b hb => ⟨hl.nonneg, h.lies_head b hb⟩, ih⟩

theorem Tiled.rebuilt (h : Tiled loneCr source n tokens) :
    (stretches source n tokens).flatten = source.drop n := by
  induction h with
  | @last n t hl hk ht ho =>
    have hstart : t.start = source.length := by rw [Token.start, ho, Int.toNat_natCast]
    have hgap := between_append_drop source hl.le_start
    rw [hstart, List.drop_length, List.append_nil] at hgap
    simp [stretches, ht, hstart, hgap]
  | @cons n t tokens hl hk ht h ih =>
    have htext := between_append_drop source (Nat.le_add_right t.start t.text.length)
    change between source t.start t.stop ++ source.drop t.stop = _ at htext
    rw [hl.cut] at htext
    rw [stretches, List.flatten_cons, List.flatten_cons, ih, htext,
      between_append_drop source hl.le_start]

theorem Tiled.partition (h : Tiled loneCr source 0 tokens) : Partition loneCr source tokens where
  ends := h.ends
  cut := h.cut
  ordered := h.isChain.imp fun a b hab => by
    obtain ⟨ha, hb⟩ := hab
    have hle := hb.le_start
    have hnonneg := hb.nonneg
    simp only [Token.stop, Token.start] at hle
    omega
  leading t ht := (h.lies_head t ht).trivia
  spaced := h.isChain.imp fun _ _ hab => hab.2.trivia
  rebuilt := h.rebuilt

end Tiles

section Tokenize

variable (options : Options) (source : List Char)

theorem token_lies {n : Nat} {found : Lexeme} {rest : List Char} (hn : n ≤ source.length)
    (h : source.drop n = found.text ++ rest) :
    ((cursorAt options.loneCr source n).token options source found).Lies options.loneCr source n := by
  have hstart := start_token options source hn found
  refine ⟨Int.natCast_nonneg _, hstart.ge, ?_, ?_⟩
  · rw [Token.stop, hstart]
    exact between_of_drop source h
  · rw [hstart, between_self]
    exact .nil _

/-- A split that reaches the end of the text lays its tokens out one behind the other. -/
theorem tiled_layOut {n : Nat} {pieces : List Piece} (hn : n ≤ source.length)
    (h : Split.ofText options (source.drop n) = ⟨pieces, none⟩) :
    Tiled options.loneCr source n
      ((cursorAt options.loneCr source n).layOut options source pieces) := by
  induction pieces generalizing n with
  | nil =>
    have hlen := List.drop_eq_nil_iff.mp (Split.eq_nil_of_ofText h)
    obtain rfl : n = source.length := Nat.le_antisymm hn hlen
    rw [layOut_nil]
    refine .last (token_lies options source hn List.drop_length) rfl rfl ?_
    simp [endToken, Cursor.token, offset_cursorAt]
  | cons piece pieces ih =>
    obtain ⟨rest, htext, hbefore, hrest⟩ := Split.ofText_eq_cons h
    have hdrop := drop_of_drop htext
    have hlen := add_length_le_of_drop hn htext
    rw [← hdrop] at htext hbefore hrest
    have hlater := ih hlen hrest
    cases hbefore with
    | blank _ hb =>
      rw [layOut_blank]
      exact hlater.prepend htext (fun gap rest _ hg => .blank (isBlank_iff.mp hb) hg)
    | @comment body ending _ hb hend =>
      rw [layOut_comment]
      rcases hend with hend | ⟨-, hstray⟩
      · refine hlater.prepend htext (fun gap rest hgap hg => ?_)
        rw [← hgap] at hend
        simpa [Piece.text] using Trivia.comment hb hend hg
      -- the carriage return left by this comment would have stopped the split
      · exact absurd (by rw [hrest]) (Split.stop_of_strayReturn hstray)
    | @lexeme found _ hr =>
      rw [layOut_lexeme]
      refine .cons (token_lies options source hn htext) hr.spelled.ne_endOfInput hr.spelled.ne_nil ?_
      rw [Token.stop, start_token options source hn found]
      exact hlater

variable {options source}

/-- Tokens and trivia partition every text that has a token list. -/
theorem tokenize_partition {tokens : List Token} (h : tokenize options source = .ok tokens) :
    Partition options.loneCr source tokens := by
  obtain ⟨pieces, hs, rfl⟩ := (tokenize_eq_ok_iff options source).mp h
  exact (tiled_layOut options source (Nat.zero_le _) hs).partition

/-- A comment ends with its pair of terminators, and the number behind it begins a line. -/
theorem partition_of_commented_text :
    ∃ tokens, tokenize { } "x #1\r\n-2\n".toList = .ok tokens ∧
      tokens.map (·.text) = [['x'], ['-', '2'], ['\n'], []] ∧
      Partition true "x #1\r\n-2\n".toList tokens := by
  obtain ⟨tokens, h, ht⟩ := exists_tokens
    (show (tokenize { } "x #1\r\n-2\n".toList).toOption.map (·.map (·.text)) =
      some [['x'], ['-', '2'], ['\n'], []] by decide +kernel)
  exact ⟨tokens, h, ht, tokenize_partition h⟩

end Tokenize

end Lexing
