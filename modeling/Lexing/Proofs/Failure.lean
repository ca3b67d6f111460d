import Lexing.Proofs.Pieces
import Lexing.Proofs.Placement

/-!
# Where and why a text has no token list

A text has a token list unless a lexeme is to begin where the text is refused. The diagnostic tells
the place and the reason.
-/

namespace Lexing

/-- The offsets of a text that are reached from its start by passing blanks and making scans. -/
inductive Reached (options : Options) (source : List Char) : Nat → Prop
  | start : Reached options source 0
  | blank {n : Nat} {c : Char} {text : List Char} (h : Reached options source n)
      (ht : source.drop n = c :: text) (hb : isBlank c = true) : Reached options source (n + 1)
  | scan {n : Nat} {c : Char} {text : List Char} {lexeme? : Option Lexeme}
      (h : Reached options source n) (ht : source.drop n = c :: text) (hb : isBlank c = false)
      (ho : (Scan.next options c text).outcome = .ok lexeme?) :
      Reached options source (n + (Scan.next options c text).taken.length)

/-- The tokens that a scan has made when it comes to an offset by passing blanks and making scans. -/
inductive Scanned (options : Options) (source : List Char) : Nat → List Token → Prop
  | start : Scanned options source 0 []
  | blank {n : Nat} {made : List Token} {c : Char} {text : List Char}
      (h : Scanned options source n made) (ht : source.drop n = c :: text)
      (hb : isBlank c = true) : Scanned options source (n + 1) made
  | scan {n : Nat} {made : List Token} {c : Char} {text : List Char} {lexeme? : Option Lexeme}
      (h : Scanned options source n made) (ht : source.drop n = c :: text)
      (hb : isBlank c = false) (ho : (Scan.next options c text).outcome = .ok lexeme?) :
      Scanned options source (n + (Scan.next options c text).taken.length)
        (made ++ (lexeme?.map ((cursorAt options.loneCr source n).token options source)).toList)

/-- An offset that is reached and where neither a blank nor a comment begins. -/
def LexemeStart (options : Options) (source : List Char) (p : Nat) : Prop :=
  Reached options source p ∧
    ∃ c text, source.drop p = c :: text ∧ isBlank c = false ∧ c ≠ '#'

/-- Tokenizing ends with a diagnostic that names the place of an offset. -/
def FailsAt (options : Options) (source : List Char) (p : Nat) (d : Diagnostic) : Prop :=
  tokenize options source = .error d ∧
    d.location = some ((cursorAt options.loneCr source p).location options)

section Reaching

variable {options : Options} {source : List Char} {n : Nat}

theorem Reached.scanned (h : Reached options source n) : ∃ made, Scanned options source n made := by
  induction h with
  | start => exact ⟨[], .start⟩
  | blank _ ht hb ih =>
    obtain ⟨made, h⟩ := ih
    exact ⟨made, h.blank ht hb⟩
  | scan _ ht hb ho ih =>
    obtain ⟨made, h⟩ := ih
    exact ⟨_, h.scan ht hb ho⟩

/-- The split of a text goes on where a scan has come to as the split of what is left there, and the
tokens made so far stand in front of all that follow. -/
theorem Scanned.split {made : List Token} (h : Scanned options source n made) :
    ∃ done, extent done = n ∧ Split.ofText options source =
        ⟨done ++ (Split.ofText options (source.drop n)).pieces,
          (Split.ofText options (source.drop n)).stop⟩ ∧
      ∀ later, (cursorAt options.loneCr source 0).layOut options source (done ++ later) =
        made ++ (cursorAt options.loneCr source n).layOut options source later := by
  induction h with
  | start => exact ⟨[], rfl, rfl, fun later => rfl⟩
  | @blank n made c text _ ht hb ih =>
    obtain ⟨done, rfl, hs, hlater⟩ := ih
    have hdrop := drop_of_drop (ht.trans (show c :: text = [c] ++ text from rfl))
    refine ⟨done ++ [.blank c], by simp [extent, Piece.text], ?_, ?_⟩
    · rw [hs, ht, Split.ofText_blank options hb, List.append_assoc, ← hdrop]
      rfl
    · intro later
      rw [List.append_assoc, hlater, List.singleton_append, layOut_blank]
  | @scan n made c text lexeme? _ ht hb ho ih =>
    obtain ⟨done, rfl, hs, hlater⟩ := ih
    have hdrop := drop_of_drop (ht.trans (Scan.next_covers options c text).symm)
    have htext := Split.text_ofScan hb ho
    refine ⟨done ++ [.ofScan (Scan.next options c text).taken lexeme?], ?_, ?_, ?_⟩
    · simp [extent, htext]
    · rw [hs, ht, Split.ofText_of_ok hb ho, List.append_assoc, ← hdrop]
      rfl
    · intro later
      rw [List.append_assoc, hlater, ← htext, List.append_assoc, List.singleton_append]
      cases lexeme? with
      | none => exact congrArg _ (layOut_comment options source _ _ later)
      | some found => exact congrArg _ (layOut_lexeme options source _ found later)

theorem Reached.split (h : Reached options source n) :
    ∃ done, extent done = n ∧ Split.ofText options source =
      ⟨done ++ (Split.ofText options (source.drop n)).pieces,
        (Split.ofText options (source.drop n)).stop⟩ := by
  obtain ⟨made, hmade⟩ := h.scanned
  obtain ⟨done, hextent, hs, -⟩ := hmade.split
  exact ⟨done, hextent, hs⟩

theorem Reached.of_split {done later : List Piece} {stop : Option Stop}
    (h : Reached options source n)
    (hs : Split.ofText options (source.drop n) = ⟨done ++ later, stop⟩) :
    Reached options source (n + extent done) := by
  induction done generalizing n with
  | nil => exact h
  | cons piece done ih =>
    rw [extent_cons, ← Nat.add_assoc]
    cases ht : source.drop n with
    | nil => simp [ht] at hs
    | cons c text =>
      rw [ht] at hs
      -- the first piece is the blank ahead or what the scan made here took
      by_cases hb : isBlank c = true
      · have hdrop := drop_of_drop (ht.trans (show c :: text = [c] ++ text from rfl))
        rw [Split.ofText_blank options hb, ← hdrop] at hs
        obtain ⟨rfl, hr⟩ := Split.eq_of_cons_eq hs
        exact ih (h.blank ht hb) hr
      · rw [Bool.not_eq_true] at hb
        cases ho : (Scan.next options c text).outcome with
        | error fault =>
          rw [Split.ofText_of_error hb ho] at hs
          cases hs
        | ok lexeme? =>
          have hdrop := drop_of_drop (ht.trans (Scan.next_covers options c text).symm)
          rw [Split.ofText_of_ok hb ho, ← hdrop] at hs
          obtain ⟨rfl, hr⟩ := Split.eq_of_cons_eq hs
          rw [Split.text_ofScan hb ho]
          exact ih (h.scan ht hb ho) hr

end Reaching

section Failing

variable {options : Options} {source : List Char}

theorem failsAt_of_split {pieces : List Piece} {stop : Stop}
    (h : Split.ofText options source = ⟨pieces, some stop⟩) :
    ∃ d, FailsAt options source (extent pieces) d ∧ d.kind = stop.fault.kind := by
  refine ⟨_, ⟨(tokenize_eq_error_iff options source).mpr ⟨pieces, stop, h, rfl⟩, ?_⟩, ?_⟩
  · exact Fault.location_diagnose _ _ _ _
  · exact Fault.kind_diagnose _ _ _ _

/-- What a split leaves of its text begins with the lexeme that could not be read. -/
theorem next_of_split {pieces : List Piece} {stop : Stop}
    (h : Split.ofText options source = ⟨pieces, some stop⟩) :
    ∃ c text, source.drop (extent pieces) = c :: text ∧ isBlank c = false ∧
      (Scan.next options c text).outcome = .error stop.fault := by
  rw [← List.append_nil pieces] at h
  obtain ⟨rest, rfl, hrest⟩ := Split.ofText_append h
  have hdrop : (pieces.flatMap Piece.text ++ rest).drop (extent pieces) = rest := List.drop_left
  rw [hdrop]
  exact Split.next_of_ofText hrest

theorem lt_length_of_drop {c : Char} {text : List Char} {p : Nat} (h : source.drop p = c :: text) :
    p < source.length :=
  List.length_lt_of_drop_ne_nil (by simp [h])

theorem le_length_of_drop {c : Char} {text : List Char} {p : Nat} (h : source.drop p = c :: text) :
    p ≤ source.length :=
  (lt_length_of_drop h).le

theorem FailsAt.exists_split {p : Nat} {d : Diagnostic} (hp : p ≤ source.length)
    (h : FailsAt options source p d) :
    ∃ pieces stop, Split.ofText options source = ⟨pieces, some stop⟩ ∧ extent pieces = p ∧
      d.kind = stop.fault.kind := by
  obtain ⟨htoken, hlocation⟩ := h
  obtain ⟨pieces, stop, hs, rfl⟩ := (tokenize_eq_error_iff options source).mp htoken
  obtain ⟨c, text, hdrop, -⟩ := next_of_split hs
  refine ⟨pieces, stop, hs, ?_, Fault.kind_diagnose _ _ _ _⟩
  have hsome := (Fault.location_diagnose _ _ _ _).symm.trans hlocation
  exact eq_of_location_eq (le_length_of_drop hdrop) hp (Option.some.inj hsome)

theorem refused_of_split {pieces : List Piece} {stop : Stop}
    (h : Split.ofText options source = ⟨pieces, some stop⟩) :
    Refused options (source.drop (extent pieces)) stop.fault.kind := by
  obtain ⟨c, text, hdrop, hb, ho⟩ := next_of_split h
  rw [hdrop]
  exact Scan.refused_of_next hb ho

theorem Reached.split_of_refused {p : Nat} {kind : DiagnosticKind} (h : Reached options source p)
    (hr : Refused options (source.drop p) kind) :
    ∃ pieces stop, Split.ofText options source = ⟨pieces, some stop⟩ ∧ extent pieces = p ∧
      stop.fault.kind = kind := by
  obtain ⟨c, text, fault, ht, hb, ho, hk⟩ := Scan.next_of_refused hr
  obtain ⟨done, hextent, hs⟩ := h.split
  rw [ht, Split.ofText_of_error hb ho, List.append_nil] at hs
  exact ⟨done, _, hs, hextent, hk⟩

theorem Refused.kind_unique {text : List Char} {kind kind' : DiagnosticKind}
    (h : Refused options text kind) (h' : Refused options text kind') : kind = kind' := by
  obtain ⟨c, rest, fault, rfl, -, ho, rfl⟩ := Scan.next_of_refused h
  obtain ⟨c', rest', fault', he, -, ho', rfl⟩ := Scan.next_of_refused h'
  obtain ⟨rfl, rfl⟩ := List.cons.inj he
  rw [ho] at ho'
  rw [Except.error.inj ho']

theorem lexemeStart_of_split {pieces : List Piece} {stop : Stop}
    (h : Split.ofText options source = ⟨pieces, some stop⟩) :
    LexemeStart options source (extent pieces) := by
  obtain ⟨c, text, hdrop, hb, ho⟩ := next_of_split h
  rw [← List.append_nil pieces] at h
  have hreached := Reached.of_split .start h
  rw [Nat.zero_add] at hreached
  refine ⟨hreached, c, text, hdrop, hb, ?_⟩
  rintro rfl
  rw [Scan.next_hash] at ho
  cases ho

/-- At a place where a lexeme is to begin tokenizing fails exactly if the text is refused there, and
for what it is refused for. It fails at no other place, and each text is refused for one reason. -/
theorem tokenize_fails_iff (options : Options) (source : List Char) :
    (∀ p, LexemeStart options source p → ∀ kind,
      (∃ d, FailsAt options source p d ∧ d.kind = kind) ↔ Refused options (source.drop p) kind) ∧
    (∀ d, tokenize options source = .error d →
      ∃ p, LexemeStart options source p ∧ FailsAt options source p d) ∧
    ∀ text kind kind', Refused options text kind → Refused options text kind' → kind = kind' := by
  refine ⟨?_, ?_, fun text kind kind' => Refused.kind_unique⟩
  · intro p hp kind
    constructor
    · rintro ⟨d, hd, rfl⟩
      obtain ⟨c, text, ht, -⟩ := hp.2
      obtain ⟨pieces, stop, hs, rfl, hk⟩ := hd.exists_split (le_length_of_drop ht)
      rw [hk]
      exact refused_of_split hs
    · intro hr
      obtain ⟨pieces, stop, hs, rfl, rfl⟩ := hp.1.split_of_refused hr
      exact failsAt_of_split hs
  · intro d hd
    obtain ⟨pieces, stop, hs, rfl⟩ := (tokenize_eq_error_iff options source).mp hd
    exact ⟨extent pieces, lexemeStart_of_split hs, hd, Fault.location_diagnose _ _ _ _⟩

/-- Behind a word and a blank, a bar before an equals sign is refused together with that sign. -/
theorem fails_at_compound_operator :
    LexemeStart { } "x |=1".toList 2 ∧
      Refused { } ("x |=1".toList.drop 2) (.unrecognizedOperator ['|', '=']) ∧
      (∃ d, FailsAt { } "x |=1".toList 2 d ∧ d.kind = .unrecognizedOperator ['|', '=']) ∧
      ¬ ∃ d, FailsAt { } "x |=1".toList 2 d ∧ d.kind = .malformedNumber := by
  have hword : (Scan.next { } 'x' " |=1".toList).outcome =
      .ok (some { kind := .identifier, text := ['x'] }) := by decide +kernel
  have hreached : Reached { } "x |=1".toList 1 := .scan .start rfl (by decide) hword
  have hstart : LexemeStart { } "x |=1".toList 2 :=
    ⟨.blank hreached rfl (by decide), '|', ['=', '1'], rfl, by decide, by decide⟩
  have hrefused : Refused { } ("x |=1".toList.drop 2) (.unrecognizedOperator ['|', '=']) :=
    .compound ['1'] (by decide)
  obtain ⟨hfails, -, hunique⟩ := tokenize_fails_iff { } "x |=1".toList
  refine ⟨hstart, hrefused, (hfails 2 hstart _).mpr hrefused, ?_⟩
  intro hnumber
  exact absurd (hunique _ _ _ ((hfails 2 hstart _).mp hnumber) hrefused) (by decide)

end Failing

end Lexing
