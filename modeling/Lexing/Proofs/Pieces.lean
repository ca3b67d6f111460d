import Lexing.Proofs.Outcome
import Lexing.Proofs.Trivia
import Lexing.Split

/-!
# Pieces of a split

A split goes on in one of two ways: a piece stands in front of a rest whose split gives the other
pieces, or a scan fails. So a split may be taken up again at the end of any piece.
-/

namespace Lexing

/-- A piece stands in front of a rest as a split finds it there. -/
inductive Piece.Before (options : Options) : Piece → List Char → Prop
  | blank {c : Char} (rest : List Char) (hb : isBlank c = true) : Before options (.blank c) rest
  | comment {body ending rest : List Char} (hb : OneLine body)
      (he : CommentEnd options.loneCr ending rest ∨
        ending = [] ∧ Scan.StrayReturn options.loneCr rest) :
      Before options (.comment ('#' :: (body ++ ending))) rest
  | lexeme {found : Lexeme} {rest : List Char} (h : Reads options found rest.head?) :
      Before options (.lexeme found) rest

namespace Split

theorem eq_of_cons_eq {split : Split} {piece first : Piece} {later : List Piece}
    {stop : Option Stop} (h : split.cons piece = ⟨first :: later, stop⟩) :
    piece = first ∧ split = ⟨later, stop⟩ := by
  rw [cons, mk.injEq, List.cons.injEq] at h
  obtain ⟨⟨rfl, rfl⟩, rfl⟩ := h
  exact ⟨rfl, rfl⟩

@[simp] theorem ofText_nil (options : Options) : ofText options [] = ⟨[], none⟩ := by
  rw [ofText]

theorem ofText_blank (options : Options) {c : Char} (hb : isBlank c = true) (text : List Char) :
    ofText options (c :: text) = (ofText options text).cons (.blank c) := by
  rw [ofText, if_pos hb]

theorem ofText_of_ok {options : Options} {c : Char} {text : List Char} {lexeme? : Option Lexeme}
    (hb : isBlank c = false) (h : (Scan.next options c text).outcome = .ok lexeme?) :
    ofText options (c :: text) = (ofText options (Scan.next options c text).rest).cons
      (.ofScan (Scan.next options c text).taken lexeme?) := by
  rw [ofText, if_neg (by simp [hb])]
  dsimp only
  split
  · rename_i found ho
    rw [h] at ho
    rw [Except.ok.inj ho]
  · rename_i fault ho
    rw [h] at ho
    cases ho

theorem ofText_of_error {options : Options} {c : Char} {text : List Char} {fault : Fault}
    (hb : isBlank c = false) (h : (Scan.next options c text).outcome = .error fault) :
    ofText options (c :: text) =
      ⟨[], some ⟨fault, (Scan.next options c text).taken, (Scan.next options c text).rest⟩⟩ := by
  rw [ofText, if_neg (by simp [hb])]
  dsimp only
  split
  · rename_i found ho
    rw [h] at ho
    cases ho
  · rename_i other ho
    rw [h] at ho
    rw [Except.error.inj ho]

/-- A lexeme that may be read is the first piece of what it makes with the rest. -/
theorem ofText_reads {options : Options} {found : Lexeme} {rest : List Char}
    (h : Reads options found rest.head?) :
    ofText options (found.text ++ rest) = (ofText options rest).cons (.lexeme found) := by
  obtain ⟨c, text, he, hb, hn⟩ := Scan.next_of_reads h
  rw [he, ofText_of_ok hb (by rw [hn]), hn]
  rfl

theorem ofText_comment {options : Options} {body ending rest : List Char} (hb : OneLine body)
    (h : CommentEnd options.loneCr ending rest) :
    ofText options ('#' :: (body ++ (ending ++ rest))) =
      (ofText options rest).cons (.comment ('#' :: (body ++ ending))) := by
  have hn := (Scan.next_hash options _).trans (Scan.comment_of_commentEnd hb h)
  rw [ofText_of_ok (by decide) (by rw [hn]), hn]
  rfl

theorem text_ofScan {options : Options} {c : Char} {text : List Char} {lexeme? : Option Lexeme}
    (hb : isBlank c = false) (h : (Scan.next options c text).outcome = .ok lexeme?) :
    (Piece.ofScan (Scan.next options c text).taken lexeme?).text =
      (Scan.next options c text).taken := by
  cases lexeme? with
  | some found => exact (Scan.reads_of_next hb h).1
  | none => rfl

private theorem before_of_next {options : Options} {c : Char} {text : List Char}
    {lexeme? : Option Lexeme} (hb : isBlank c = false)
    (h : (Scan.next options c text).outcome = .ok lexeme?) :
    let scan := Scan.next options c text
    let piece := Piece.ofScan scan.taken lexeme?
    c :: text = piece.text ++ scan.rest ∧ piece.Before options scan.rest := by
  refine ⟨?_, ?_⟩
  · rw [text_ofScan hb h]
    exact (Scan.next_covers options c text).symm
  · cases lexeme? with
    | some found => exact .lexeme (Scan.reads_of_next hb h).2
    | none =>
      obtain rfl := Scan.eq_hash_of_next_none hb h
      obtain ⟨body, ending, rest, he, hbody, hc, hend⟩ := Scan.comment_cases options.loneCr text
      rw [Scan.next_hash, hc]
      exact .comment hbody hend

theorem ofText_cons_cases (options : Options) (c : Char) (text : List Char) :
    (∃ piece rest, c :: text = piece.text ++ rest ∧ piece.Before options rest ∧
      ofText options (c :: text) = (ofText options rest).cons piece) ∨
    ∃ stop, ofText options (c :: text) = ⟨[], some stop⟩ := by
  by_cases hb : isBlank c = true
  · exact .inl ⟨.blank c, text, rfl, .blank text hb, ofText_blank options hb text⟩
  · rw [Bool.not_eq_true] at hb
    cases ho : (Scan.next options c text).outcome with
    | ok lexeme? =>
      obtain ⟨he, hp⟩ := before_of_next hb ho
      exact .inl ⟨_, _, he, hp, ofText_of_ok hb ho⟩
    | error fault => exact .inr ⟨_, ofText_of_error hb ho⟩

/-- What comes first in a split, and the split of what is left after it. -/
theorem ofText_eq_cons {options : Options} {text : List Char} {piece : Piece}
    {later : List Piece} {stop : Option Stop} (h : ofText options text = ⟨piece :: later, stop⟩) :
    ∃ rest, text = piece.text ++ rest ∧ piece.Before options rest ∧
      ofText options rest = ⟨later, stop⟩ := by
  cases text with
  | nil => simp at h
  | cons c text =>
    rcases ofText_cons_cases options c text with ⟨first, rest, ht, hp, hs⟩ | ⟨fault, hs⟩
    · rw [hs] at h
      obtain ⟨rfl, hr⟩ := eq_of_cons_eq h
      exact ⟨rest, ht, hp, hr⟩
    · rw [hs] at h
      cases h

/-- A split may be taken up again after any of its pieces. -/
theorem ofText_append {options : Options} {text : List Char} {done later : List Piece}
    {stop : Option Stop} (h : ofText options text = ⟨done ++ later, stop⟩) :
    ∃ rest, text = done.flatMap Piece.text ++ rest ∧ ofText options rest = ⟨later, stop⟩ := by
  induction done generalizing text with
  | nil => exact ⟨text, rfl, h⟩
  | cons piece done ih =>
    obtain ⟨rest, rfl, -, hr⟩ := ofText_eq_cons h
    obtain ⟨last, rfl, hl⟩ := ih hr
    exact ⟨last, by simp, hl⟩

theorem reads_of_ofText {options : Options} {text : List Char} {done later : List Piece}
    {found : Lexeme} {stop : Option Stop}
    (h : ofText options text = ⟨done ++ .lexeme found :: later, stop⟩) :
    ∃ rest, text = done.flatMap Piece.text ++ (found.text ++ rest) ∧
      Reads options found rest.head? := by
  obtain ⟨ahead, rfl, ha⟩ := ofText_append h
  obtain ⟨rest, rfl, hb, -⟩ := ofText_eq_cons ha
  cases hb with
  | lexeme hr => exact ⟨rest, rfl, hr⟩

theorem exists_piece_of_mem_lexemes {split : Split} {found : Lexeme} (h : found ∈ split.lexemes) :
    ∃ done later, split.pieces = done ++ .lexeme found :: later := by
  obtain ⟨piece, hp, hf⟩ := List.mem_filterMap.mp h
  obtain ⟨done, later, he⟩ := List.append_of_mem hp
  cases piece with
  | lexeme other =>
    obtain rfl := Option.some.inj hf
    exact ⟨done, later, he⟩
  | blank c => cases hf
  | comment text => cases hf

theorem eq_nil_of_ofText {options : Options} {text : List Char}
    (h : ofText options text = ⟨[], none⟩) : text = [] := by
  cases text with
  | nil => rfl
  | cons c text =>
    rcases ofText_cons_cases options c text with ⟨first, rest, -, -, hs⟩ | ⟨fault, hs⟩
    · rw [hs] at h
      cases h
    · rw [hs] at h
      cases h

theorem next_of_ofText {options : Options} {text : List Char} {stop : Stop}
    (h : ofText options text = ⟨[], some stop⟩) :
    ∃ c rest, text = c :: rest ∧ isBlank c = false ∧
      (Scan.next options c rest).outcome = .error stop.fault := by
  cases text with
  | nil => simp at h
  | cons c rest =>
    by_cases hb : isBlank c = true
    · rw [ofText_blank options hb] at h
      cases h
    · rw [Bool.not_eq_true] at hb
      cases ho : (Scan.next options c rest).outcome with
      | ok lexeme? =>
        rw [ofText_of_ok hb ho] at h
        cases h
      | error fault =>
        rw [ofText_of_error hb ho] at h
        cases h
        exact ⟨c, rest, rfl, hb, ho⟩

/-- A stray carriage return stops a split. -/
theorem stop_of_strayReturn {options : Options} {rest : List Char}
    (h : Scan.StrayReturn options.loneCr rest) : (ofText options rest).stop ≠ none := by
  obtain ⟨hl, more, rfl, hm⟩ := h
  have hn : Scan.next options '\r' more = ⟨[], '\r' :: more, .error (.strayReturn ['\r'])⟩ := by
    rw [Scan.next_of_isLineTerminator options more (by decide), Scan.endOfLine_return _ hm, hl]
    rfl
  rw [ofText_of_error (by decide) (by rw [hn])]
  simp

@[simp] theorem lexemes_cons_lexeme (found : Lexeme) (split : Split) :
    (split.cons (.lexeme found)).lexemes = found :: split.lexemes := rfl

end Split

end Lexing
