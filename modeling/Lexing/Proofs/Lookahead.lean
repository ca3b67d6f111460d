import Lexing.Proofs.Restart

/-!
# One character of lookahead

A piece that stands in front of more text is decided by its own characters and the one behind it. So
texts that begin alike have the same tokens as far as these end before the last character that the
texts share, and a fault is found behind all of them.
-/

namespace Lexing

section Pieces

variable {options : Options}

namespace Split

/-- A piece is found again before any other text that begins with the same character. -/
theorem ofText_before_alike {piece : Piece} {rest rest' : List Char}
    (h : piece.Before options rest) (hs : ¬ Scan.StrayReturn options.loneCr rest) (hr : rest ≠ [])
    (hhead : rest.head? = rest'.head?) :
    ofText options (piece.text ++ rest') = (ofText options rest').cons piece := by
  cases h with
  | blank _ hb => exact ofText_blank options hb rest'
  | @comment body ending _ hb he =>
    have hend : CommentEnd options.loneCr ending rest' := by
      cases he.resolve_right fun hstray => hs hstray.2 with
      | lineFeed => exact .lineFeed rest'
      | pair => exact .pair rest'
      | loneReturn hl hn => exact .loneReturn hl (hhead ▸ hn)
      | endOfText => exact absurd rfl hr
    rw [← ofText_comment hb hend]
    simp [Piece.text]
  | lexeme hf => exact ofText_reads (hhead ▸ hf)

/-- The pieces that end before the last character of a text are the same whatever is behind it. -/
theorem ofText_alike {shared back : List Char} {done later : List Piece}
    (h : ofText options (shared ++ back) = ⟨done ++ later, none⟩)
    (hd : extent done < shared.length) (back' : List Char) :
    ofText options (shared ++ back') =
      ⟨done ++ (ofText options (shared.drop (extent done) ++ back')).pieces,
        (ofText options (shared.drop (extent done) ++ back')).stop⟩ := by
  induction done generalizing shared with
  | nil => rfl
  | cons piece done ih =>
    obtain ⟨rest, htext, hbefore, hrest⟩ := ofText_eq_cons h
    rw [extent_cons] at hd
    obtain ⟨left, rfl⟩ : piece.text <+: shared :=
      List.prefix_of_prefix_length_le ⟨rest, htext.symm⟩ (List.prefix_append shared back) (by omega)
    rw [List.append_assoc] at htext
    obtain rfl := List.append_cancel_left htext
    rw [List.length_append] at hd
    obtain ⟨c, more, rfl⟩ : ∃ c more, left = c :: more :=
      List.exists_cons_of_length_pos (by omega)
    have hstray : ¬ Scan.StrayReturn options.loneCr (c :: more ++ back) :=
      fun hstray => stop_of_strayReturn hstray (by rw [hrest])
    have hfirst := ofText_before_alike hbefore hstray (List.cons_ne_nil _ _)
      (show _ = (c :: more ++ back').head? from rfl)
    rw [List.append_assoc, hfirst, ih hrest (by omega), extent_cons, List.drop_length_add_append]
    rfl

end Split

end Pieces

section Tokens

variable {options : Options} {shared back : List Char}

/-- A place is decided by the characters before it and the one that stands there. -/
theorem position_alike (loneCr : Bool) {n : Nat} (hn : n < shared.length) (back back' : List Char) :
    (cursorAt loneCr (shared ++ back) n).position =
      (cursorAt loneCr (shared ++ back') n).position := by
  have hlong (back : List Char) : shared.length ≤ (shared ++ back).length := by simp
  induction n with
  | zero => rfl
  | succ n ih =>
    have hlt : n < shared.length := Nat.lt_of_succ_lt hn
    rw [position_cursorAt_succ (hlt.trans_le (hlong back)),
      position_cursorAt_succ (hlt.trans_le (hlong back')), ih hlt,
      List.getElem_append_left hlt, List.getElem_append_left hlt,
      List.getElem?_append_left hn, List.getElem?_append_left hn]

/-- The tokens made by the end of a token are those of the pieces up to it. -/
theorem layOut_through {pieces : List Piece} {source : List Char} {made later : List Token} {t : Token}
    (h : (cursorAt options.loneCr source 0).layOut options source pieces = made ++ t :: later)
    (hp : extent pieces ≤ source.length) (ht : t.stop < extent pieces) :
    ∃ done more, pieces = done ++ more ∧ extent done = t.stop ∧
      (cursorAt options.loneCr source 0).layOut options source done =
        (made ++ [t]) ++ [endToken options source t.stop] := by
  obtain ⟨done, rest, rfl, hrest, hhere⟩ := layOut_eq_append options source h
  rw [Nat.zero_add] at hrest hhere
  rw [extent_append] at hp ht
  have hlen : extent done ≤ source.length := Nat.le_of_add_right_le hp
  rcases hhere with ⟨found, more, rfl, hfound⟩ | ⟨rfl, hend⟩
  · have hsum : extent (done ++ [.lexeme found]) = extent done + found.text.length := by
      simp [extent_append, Piece.text]
    have hstop : t.stop = extent (done ++ [.lexeme found]) := by
      rw [Token.stop, hfound, start_token options source hlen, hsum]
      rfl
    refine ⟨done ++ [.lexeme found], more, by simp, hstop.symm, ?_⟩
    obtain ⟨front, -, hlater⟩ := layOut_append options source 0 done
    rw [Nat.zero_add] at hlater
    have hmade := h
    rw [hlater, hrest] at hmade
    rw [hlater, List.append_cancel_right hmade, layOut_lexeme, layOut_nil, ← hfound, hstop, hsum,
      List.append_assoc]
    rfl
  · have hstop : t.stop = extent done := by
      rw [Token.stop, hend, endToken, start_token options source hlen]
      rfl
    rw [hstop] at ht
    simp at ht

/-- Whatever follows a text, the tokens that end before its last character are the same, and a fault
is found behind all of them only. -/
theorem tokenize_lookahead {made later : List Token} {t : Token}
    (h : tokenize options (shared ++ back) = .ok (made ++ t :: later)) (ht : t.stop < shared.length)
    (back' : List Char) :
    (∀ tokens, tokenize options (shared ++ back') = .ok tokens → ∃ later',
      tokens = (made ++ [t]).map (fun t => { t with source := shared ++ back' }) ++ later') ∧
    ∀ d, tokenize options (shared ++ back') = .error d → ∃ p, t.stop ≤ p ∧
      LexemeStart options (shared ++ back') p ∧ FailsAt options (shared ++ back') p d := by
  obtain ⟨pieces, hs, htokens⟩ := (tokenize_eq_ok_iff options _).mp h
  have hextent := extent_of_split hs
  have hlen : shared.length ≤ (shared ++ back).length := by simp
  obtain ⟨done, more, rfl, hstop, hdone⟩ :=
    layOut_through htokens hextent.le (hextent ▸ ht.trans_le hlen)
  rw [← hstop] at ht ⊢
  have hsplit := Split.ofText_alike hs ht back'
  constructor
  · intro tokens hother
    obtain ⟨pieces, hs', rfl⟩ := (tokenize_eq_ok_iff options _).mp hother
    obtain ⟨rfl, -⟩ := Split.mk.inj (hs'.symm.trans hsplit)
    obtain ⟨front, hfront, hlater⟩ := layOut_append options (shared ++ back') 0 done
    have hmap : ((cursorAt options.loneCr (shared ++ back) 0).layOut options (shared ++ back) done).map
        (fun t => { t with source := shared ++ back' }) =
        (cursorAt options.loneCr (shared ++ back') 0).layOut options (shared ++ back') done := by
      apply layOut_map
      intro m hm found
      rw [Nat.zero_add, Cursor.token, Cursor.token,
        position_alike options.loneCr (hm.trans_lt ht) back back']
    rw [hdone, hfront, List.map_append] at hmap
    obtain ⟨hmade, -⟩ := List.append_inj' hmap rfl
    exact ⟨_, hmade ▸ hlater _⟩
  · intro d hother
    obtain ⟨pieces, stop, hs', rfl⟩ := (tokenize_eq_error_iff options _).mp hother
    obtain ⟨rfl, -⟩ := Split.mk.inj (hs'.symm.trans hsplit)
    refine ⟨_, ?_, lexemeStart_of_split hs', hother, Fault.location_diagnose _ _ _ _⟩
    rw [extent_append]
    exact Nat.le_add_right _ _

/-- The equals sign ends the text and may go on behind it, but the number in front of it is fixed. -/
theorem lookahead_before_equals_sign :
    ∃ made t later, tokenize { } ("\"a\r\nb\" -2.5 =".toList ++ []) = .ok (made ++ t :: later) ∧
      t.text = "-2.5".toList ∧ t.line = 2 ∧ t.stop < "\"a\r\nb\" -2.5 =".toList.length ∧
      (∃ later', tokenize { } ("\"a\r\nb\" -2.5 =".toList ++ "=3".toList) =
        .ok ((made ++ [t]).map (fun t => { t with
          source := "\"a\r\nb\" -2.5 =".toList ++ "=3".toList }) ++ later')) ∧
      ∃ d p, t.stop ≤ p ∧ FailsAt { } ("\"a\r\nb\" -2.5 =".toList ++ "|".toList) p d := by
  obtain ⟨tokens, h, ht⟩ := exists_tokens
    (show (tokenize { } ("\"a\r\nb\" -2.5 =".toList ++ [])).toOption.map
      (·.map fun t => (t.text, t.line, t.offset)) = some [("\"a\r\nb\"".toList, 1, 0),
        ("-2.5".toList, 2, 7), (['='], 2, 12), ([], 2, 13)] by decide +kernel)
  obtain ⟨first, tokens, rfl, -, ht⟩ := List.map_eq_cons_iff.mp ht
  obtain ⟨t, later, rfl, hnumber, -⟩ := List.map_eq_cons_iff.mp ht
  simp only [Prod.mk.injEq] at hnumber
  obtain ⟨htext, hline, hoffset⟩ := hnumber
  have hstop : t.stop < "\"a\r\nb\" -2.5 =".toList.length := by
    rw [Token.stop, Token.start, htext, hoffset]
    decide
  have hfixed := @tokenize_lookahead { } _ _ [first] later t h hstop
  refine ⟨[first], t, later, h, htext, hline, hstop, ?_, ?_⟩
  · obtain ⟨others, hothers, -⟩ := exists_tokens
      (show (tokenize { } ("\"a\r\nb\" -2.5 =".toList ++ "=3".toList)).toOption.map List.length =
        some 5 by decide +kernel)
    obtain ⟨later', rfl⟩ := (hfixed "=3".toList).1 _ hothers
    exact ⟨later', hothers⟩
  · obtain ⟨d, hd, -⟩ := exists_diagnostic
      (show (tokenize { } ("\"a\r\nb\" -2.5 =".toList ++ "|".toList)).mapError (·.kind) =
        .error (.unrecognizedOperator ['|']) by decide +kernel)
    obtain ⟨p, hp, -, hfails⟩ := (hfixed "|".toList).2 d hd
    exact ⟨d, p, hp, hfails⟩

end Tokens

end Lexing
