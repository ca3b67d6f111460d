import Lexing.Proofs.Pieces

/-!
# Scans of whole lines

Only strings go over the end of a line. No other scan takes or looks at anything behind a line feed,
so more text behind a text that ends with one changes nothing about the scans of that text, unless
it ends within a string.
-/

namespace Lexing

/-- The text ends with a line feed. -/
def Terminated (text : List Char) : Prop := text.getLast? = some '\n'

namespace Terminated

variable {text : List Char}

theorem ne_nil (h : Terminated text) : text ≠ [] := by
  rintro rfl
  cases h

theorem of_append {front back : List Char} (h : Terminated (front ++ back)) (hb : back ≠ []) :
    Terminated back := by
  rwa [Terminated, List.getLast?_append_of_ne_nil front hb] at h

theorem tail {c : Char} (h : Terminated (c :: text)) (hc : c ≠ '\n') : Terminated text := by
  rw [← List.singleton_append] at h
  apply h.of_append
  rintro rfl
  exact hc (Option.some.inj h)

theorem drop (h : Terminated text) {n : Nat} (hn : n < text.length) : Terminated (text.drop n) := by
  rw [← List.take_append_drop n text] at h
  exact h.of_append (List.drop_eq_nil_iff.not.mpr hn.not_ge)

theorem getElem?_last (h : Terminated text) {n : Nat} (hn : n + 1 = text.length) :
    text[n]? = some '\n' := by
  rw [← h, List.getLast?_eq_getElem?, ← hn, Nat.add_sub_cancel]

theorem dropWhile {p : Char → Bool} (h : Terminated text) (hp : p '\n' = false) :
    Terminated (text.dropWhile p) := by
  rw [← List.takeWhile_append_dropWhile (p := p) (l := text)] at h
  apply h.of_append
  intro hnil
  rw [hnil, List.append_nil] at h
  have hfeed := List.mem_takeWhile_imp (List.mem_of_getLast? h)
  rw [hp] at hfeed
  cases hfeed

end Terminated

/-- A run that ends within a text does not depend on what is behind the text. -/
theorem run_append {p : Char → Bool} {text : List Char} (h : text.dropWhile p ≠ [])
    (more : List Char) : (text ++ more).takeWhile p = text.takeWhile p ∧
      (text ++ more).dropWhile p = text.dropWhile p ++ more := by
  have hlen : (text.takeWhile p).length ≠ text.length := by
    intro hall
    have hsum := congrArg List.length (List.takeWhile_append_dropWhile (p := p) (l := text))
    rw [List.length_append, hall, Nat.add_eq_left, List.length_eq_zero_iff] at hsum
    exact h hsum
  have hempty : (text.dropWhile p).isEmpty = false := by simpa using h
  rw [List.takeWhile_append, List.dropWhile_append, if_neg hlen, hempty]
  exact ⟨rfl, rfl⟩

namespace Scan

/-- What a scan of a text becomes in a longer one, if it looks at nothing behind the text. -/
def followedBy {α : Type} (scan : Scan α) (more : List Char) : Scan α :=
  ⟨scan.taken, scan.rest ++ more, scan.outcome⟩

section Scans

variable {text : List Char} (more : List Char)

theorem word_append (h : Terminated text) : word (text ++ more) = (word text).followedBy more := by
  obtain ⟨htake, hdrop⟩ := run_append (h.dropWhile (p := isWordChar) (by decide)).ne_nil more
  rw [word, htake, hdrop]
  rfl

theorem operator_append {c : Char} (h : text ≠ []) :
    operator (c :: text ++ more) = (operator (c :: text)).followedBy more := by
  obtain ⟨d, rest, rfl⟩ := List.exists_cons_of_ne_nil h
  by_cases hj : joins c d = true
  · rw [List.cons_append, List.cons_append, operator_double hj, operator_double hj]
    cases reservedKind? [c, d] <;> rfl
  · have hends (rest : List Char) : EndsRun (joins c) (d :: rest).head? := by simpa using hj
    rw [List.cons_append, List.cons_append, operator_single (hends _), operator_single (hends _)]
    cases reservedKind? [c] <;> rfl

private theorem minusSign_append_right (h : Terminated text) :
    minusSign (text ++ more) = ((minusSign text).1, (minusSign text).2 ++ more) ∧
      Terminated (minusSign text).2 := by
  obtain ⟨c, rest, rfl⟩ := List.exists_cons_of_ne_nil h.ne_nil
  by_cases hc : c = '-'
  · subst hc
    exact ⟨rfl, h.tail (by decide)⟩
  · simpa [minusSign, hc] using h

theorem number_append (options : Options) (h : Terminated text) :
    number options (text ++ more) = (number options text).followedBy more := by
  have hdigit : isDigit '\n' = false := by decide
  obtain ⟨hsign, hunsigned⟩ := minusSign_append_right more h
  have htail := hunsigned.dropWhile hdigit
  obtain ⟨htake, hdrop⟩ := run_append htail.ne_nil more
  obtain ⟨c, rest, hrest⟩ := List.exists_cons_of_ne_nil htail.ne_nil
  rw [hrest] at htail
  simp only [number, hsign, htake, hdrop, hrest, List.cons_append]
  by_cases hc : c = '.'
  · subst hc
    have hfraction := (htail.tail (by decide)).dropWhile hdigit
    obtain ⟨htake', hdrop'⟩ := run_append hfraction.ne_nil more
    simp only [htake', hdrop']
    split
    · rfl
    · split <;> rfl
  · simp [hc, followedBy]

theorem string_append {c : Char} (h : (string (c :: text)).outcome ≠ .error .unterminatedString) :
    string (c :: text ++ more) = (string (c :: text)).followedBy more := by
  have hopen : text.dropWhile (· != '"') ≠ [] := by
    intro hnil
    apply h
    simp only [string, hnil]
  obtain ⟨htake, hdrop⟩ := run_append hopen more
  obtain ⟨d, rest, hrest⟩ := List.exists_cons_of_ne_nil hopen
  simp only [string, List.cons_append, htake, hdrop, hrest]
  rfl

theorem endOfLine_append (loneCr : Bool) {c : Char} (hc : isLineTerminator c = true)
    (h : Terminated (c :: text)) :
    endOfLine loneCr (c :: text ++ more) = (endOfLine loneCr (c :: text)).followedBy more := by
  have hcases : c = '\n' ∨ c = '\r' := by simpa [isLineTerminator] using hc
  rcases hcases with rfl | rfl
  · rw [List.cons_append, endOfLine_lineFeed, endOfLine_lineFeed]
    rfl
  · have hhead : (text ++ more).head? = text.head? :=
      List.head?_append_of_ne_nil text (h.tail (by decide)).ne_nil
    by_cases hfeed : text.head? = some '\n'
    · obtain ⟨rest, rfl⟩ := List.head?_eq_some_iff.mp hfeed
      rfl
    · rw [List.cons_append, endOfLine_return _ (hhead.trans_ne hfeed), endOfLine_return _ hfeed]
      cases loneCr <;> rfl

private theorem lineEnd_append_right (loneCr : Bool) (h : Terminated text) :
    lineEnd loneCr (text ++ more) = ((lineEnd loneCr text).1, (lineEnd loneCr text).2 ++ more) := by
  obtain ⟨c, rest, rfl⟩ := List.exists_cons_of_ne_nil h.ne_nil
  by_cases hc : c = '\r'
  · subst hc
    have hhead : (rest ++ more).head? = rest.head? :=
      List.head?_append_of_ne_nil rest (h.tail (by decide)).ne_nil
    by_cases hfeed : rest.head? = some '\n'
    · obtain ⟨after, rfl⟩ := List.head?_eq_some_iff.mp hfeed
      rfl
    · rw [List.cons_append, lineEnd_return _ (hhead.trans_ne hfeed), lineEnd_return _ hfeed]
      cases loneCr <;> rfl
  · by_cases hfeed : c = '\n'
    · subst hfeed
      rfl
    · simp [lineEnd, hc, hfeed]

theorem comment_append (loneCr : Bool) {c : Char} (h : Terminated text) :
    comment loneCr (c :: text ++ more) = (comment loneCr (c :: text)).followedBy more := by
  have htail := h.dropWhile (p := fun c => !isLineTerminator c) (by decide)
  obtain ⟨htake, hdrop⟩ := run_append htail.ne_nil more
  simp only [comment, List.cons_append, List.drop_one, List.tail_cons, htake, hdrop,
    lineEnd_append_right more loneCr htail]
  rfl

theorem punctuation_append {c : Char} (hm : c ≠ '-') (h : text ≠ []) :
    punctuation c (text ++ more) = (punctuation c text).followedBy more := by
  by_cases ht : c = '@'
  · subst ht
    rfl
  by_cases hc : c = ':'
  · subst hc
    have hhead : (text ++ more).head? = text.head? := List.head?_append_of_ne_nil text h
    by_cases hr : text.head? = some ':'
    · obtain ⟨rest, rfl⟩ := List.head?_eq_some_iff.mp hr
      rfl
    · rw [punctuation_colon (hhead.trans_ne hr), punctuation_colon hr]
      rfl
  · rw [punctuation_other _ ht hc hm, punctuation_other _ ht hc hm]
    cases bracketKind? c <;> rfl

theorem minus_append (options : Options) (h : Terminated text) :
    minus options (text ++ more) = (minus options text).followedBy more := by
  have hsigned : Terminated ('-' :: text) := by
    rwa [Terminated, List.getLast?_cons_of_ne_nil h.ne_nil]
  rw [minus, minus, List.head?_append_of_ne_nil text h.ne_nil]
  split
  · rename_i harrow
    obtain ⟨rest, rfl⟩ := List.head?_eq_some_iff.mp harrow
    rfl
  · split
    · exact number_append more options hsigned
    · exact operator_append more h.ne_nil
  · exact operator_append more h.ne_nil

variable {options : Options} {c : Char}

/-- More text behind a text that ends with a line feed is left by the next scan, whatever the scan
comes to, unless it looks for the end of a string. -/
theorem next_append (h : Terminated (c :: text))
    (ho : (next options c text).outcome ≠ .error .unterminatedString) :
    next options c (text ++ more) = (next options c text).followedBy more := by
  by_cases hline : isLineTerminator c = true
  · rw [next_of_isLineTerminator _ _ hline, next_of_isLineTerminator _ _ hline, ← List.cons_append,
      endOfLine_append more _ hline h]
    rfl
  have hfeed : c ≠ '\n' := by
    rintro rfl
    exact hline (by decide)
  have ht := h.tail hfeed
  rcases firstChar_cases c with hc | rfl | ⟨hc, hm⟩ | hc | rfl | hc | rfl | hc
  · rw [next_of_isWordStart _ _ hc, next_of_isWordStart _ _ hc, ← List.cons_append,
      word_append more h]
    rfl
  · rw [next_minus, next_minus, minus_append more options ht]
    rfl
  · rw [next_of_isOperatorChar _ _ hc hm, next_of_isOperatorChar _ _ hc hm, ← List.cons_append,
      operator_append more ht.ne_nil]
    rfl
  · rw [next_of_isDigit _ _ hc, next_of_isDigit _ _ hc, ← List.cons_append,
      number_append more options h]
    rfl
  · rw [next_quote] at ho
    rw [next_quote, next_quote, ← List.cons_append, string_append more]
    · rfl
    · intro hs
      apply ho
      rw [map, hs]
      rfl
  · exact absurd hc hline
  · rw [next_hash, next_hash, ← List.cons_append, comment_append more _ ht]
  · have hm : c ≠ '-' := by
      rintro rfl
      exact absurd hc.2.1 (by decide)
    rw [next_of_unclaimed _ _ hc, next_of_unclaimed _ _ hc, punctuation_append more hm ht.ne_nil]
    rfl

end Scans

end Scan

namespace Split

/-- What the split of a text becomes in a longer one, if it looks at nothing behind the text: a split
that reached the end goes on there, one that stopped stays as it is. -/
def followedBy (options : Options) (split : Split) (more : List Char) : Split :=
  match split.stop with
  | none => ⟨split.pieces ++ (ofText options more).pieces, (ofText options more).stop⟩
  | some stop => ⟨split.pieces, some { stop with rest := stop.rest ++ more }⟩

theorem followedBy_cons (options : Options) (piece : Piece) (split : Split) (more : List Char) :
    (split.cons piece).followedBy options more = (split.followedBy options more).cons piece := by
  obtain ⟨pieces, stop⟩ := split
  cases stop <;> rfl

/-- A text of whole lines is split in the same way whatever is behind it, unless it ends within a
string. -/
theorem ofText_followed {options : Options} {text : List Char} (more : List Char)
    (ht : text = [] ∨ Terminated text)
    (hs : ∀ stop ∈ (ofText options text).stop, stop.fault ≠ .unterminatedString) :
    ofText options (text ++ more) = (ofText options text).followedBy options more := by
  induction text using ofText.induct options with
  | case1 => simp [followedBy]
  | case2 c text hb ih =>
    have htail : Terminated text := by
      apply (ht.resolve_left (List.cons_ne_nil c text)).tail
      rintro rfl
      exact absurd hb (by decide)
    rw [ofText_blank options hb] at hs
    rw [List.cons_append, ofText_blank options hb, ofText_blank options hb, followedBy_cons,
      ih (.inr htail) hs]
  | case3 c text hb scan lexeme? ho ih =>
    rw [Bool.not_eq_true] at hb
    have hline := ht.resolve_left (List.cons_ne_nil c text)
    have hnext : Scan.next options c (text ++ more) = scan.followedBy more := by
      apply Scan.next_append more hline
      rw [ho]
      intro he
      cases he
    have hrest : scan.rest = [] ∨ Terminated scan.rest := by
      rw [or_iff_not_imp_left]
      rw [← Scan.next_covers options c text] at hline
      exact hline.of_append
    rw [ofText_of_ok hb ho] at hs
    rw [List.cons_append, ofText_of_ok hb (by rw [hnext]; exact ho), ofText_of_ok hb ho,
      followedBy_cons, hnext, ← ih hrest hs]
    rfl
  | case4 c text hb scan fault ho =>
    rw [Bool.not_eq_true] at hb
    have hline := ht.resolve_left (List.cons_ne_nil c text)
    rw [ofText_of_error hb ho] at hs
    have hnext : Scan.next options c (text ++ more) = scan.followedBy more := by
      apply Scan.next_append more hline
      rw [ho]
      intro he
      exact hs _ rfl (Except.error.inj he)
    rw [List.cons_append, ofText_of_error hb (by rw [hnext]; exact ho), ofText_of_error hb ho, hnext]
    rfl

end Split

end Lexing
