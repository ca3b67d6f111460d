import Lexing.Proofs.Alphabet
import Lexing.Token.Reserved

/-!
# The grammar of lexemes

Which texts are lexemes and of which kind, without regard to how a scan finds them. Four classes are
unbounded: words, integers, floats and strings. The others are a finite table of marks.
-/

namespace Lexing

/-- Two words are reserved; every other one is an identifier. -/
def wordKind (word : List Char) : TokenKind :=
  if word = ['l', 'e', 't'] then .keywordLet
  else if word = ['i', 'f'] then .keywordIf
  else .identifier

/-- The spellings of one fixed form: what is reserved besides words, the type mark, line ends. -/
def marks (loneCr : Bool) : List (List Char × TokenKind) :=
  reservedSpellings.filter (fun entry => !entry.2.isKeyword) ++
    [(['@'], .typeSignature), (['\n'], .endOfLine), (['\r', '\n'], .endOfLine)] ++
    if loneCr then [(['\r'], .endOfLine)] else []

def Sign (sign : List Char) : Prop := sign = [] ∨ sign = ['-']

def Digits (digits : List Char) : Prop := digits ≠ [] ∧ ∀ d ∈ digits, Digit d

instance (digits : List Char) : Decidable (Digits digits) :=
  @instDecidableAnd _ _ _ (List.decidableBAll Digit digits)

/-- A text is a lexeme of a kind. -/
inductive Spelled (loneCr : Bool) : List Char → TokenKind → Prop
  | word {c : Char} {text : List Char} (hc : WordStart c) (ht : ∀ d ∈ text, WordPart d) :
      Spelled loneCr (c :: text) (wordKind (c :: text))
  | integer {sign digits : List Char} (hs : Sign sign) (hd : Digits digits) :
      Spelled loneCr (sign ++ digits) .intLiteral
  | float {sign digits fraction : List Char} (hs : Sign sign) (hd : Digits digits)
      (hf : Digits fraction) : Spelled loneCr (sign ++ digits ++ '.' :: fraction) .floatLiteral
  | string {body : List Char} (hb : '"' ∉ body) :
      Spelled loneCr ('"' :: (body ++ ['"'])) .stringLiteral
  | mark {spelling : List Char} {kind : TokenKind} (hm : (spelling, kind) ∈ marks loneCr) :
      Spelled loneCr spelling kind

private theorem marks_plain (loneCr : Bool) :
    ∀ entry ∈ marks loneCr, entry.1.all (fun c => !isWordChar c && c != '"') = true := by
  cases loneCr <;> decide

private theorem marks_short (loneCr : Bool) : ∀ entry ∈ marks loneCr, entry.1.length ≤ 2 := by
  cases loneCr <;> decide

private theorem marks_lookup (loneCr : Bool) :
    ∀ entry ∈ marks loneCr, (marks loneCr).lookup entry.1 = some entry.2 := by
  cases loneCr <;> decide

theorem not_mem_of_mark {loneCr : Bool} {spelling : List Char} {kind : TokenKind} {c : Char}
    (hm : (spelling, kind) ∈ marks loneCr) (hc : isWordChar c = true ∨ c = '"') :
    c ∉ spelling := by
  intro hmem
  have h := List.all_eq_true.mp (marks_plain loneCr _ hm) c hmem
  simp only [Bool.and_eq_true, Bool.not_eq_true', bne_iff_ne] at h
  rcases hc with hc | hc
  · rw [h.1] at hc
    exact Bool.false_ne_true hc
  · exact h.2 hc

theorem length_of_mark {loneCr : Bool} {spelling : List Char} {kind : TokenKind}
    (hm : (spelling, kind) ∈ marks loneCr) : spelling.length ≤ 2 :=
  marks_short loneCr _ hm

theorem reservedKind?_mem {spelling : List Char} {kind : TokenKind}
    (h : reservedKind? spelling = some kind) : (spelling, kind) ∈ reservedSpellings := by
  obtain ⟨front, back, he, -⟩ := List.lookup_eq_some_iff.mp h
  rw [he]
  simp

theorem wordKind_eq {c : Char} {text : List Char} (hc : isWordStart c = true) :
    (reservedKind? (c :: text)).getD .identifier = wordKind (c :: text) := by
  cases hk : reservedKind? (c :: text) with
  | none =>
    have hl : c :: text ≠ ['l', 'e', 't'] := by
      intro he
      rw [he] at hk
      exact absurd hk (by decide)
    have hi : c :: text ≠ ['i', 'f'] := by
      intro he
      rw [he] at hk
      exact absurd hk (by decide)
    simp only [wordKind, if_neg hl, if_neg hi, Option.getD_none]
  | some kind =>
    by_cases hw : kind.isKeyword = true
    · have hwords : ∀ entry ∈ reservedSpellings, entry.2.isKeyword = true →
          entry.2 = wordKind entry.1 := by decide
      exact hwords _ (reservedKind?_mem hk) hw
    · have hm : (c :: text, kind) ∈ marks false := by
        simp [marks, reservedKind?_mem hk, hw]
      exact absurd (List.mem_cons_self) (not_mem_of_mark hm (.inl (isWordChar_of_isWordStart hc)))

/-- The kind that the text of a lexeme shows. -/
private def shownKind (loneCr : Bool) (text : List Char) : TokenKind :=
  match (marks loneCr).lookup text with
  | some kind => kind
  | none =>
    if '"' ∈ text then .stringLiteral
    else if text.head?.any isWordStart then wordKind text
    else if '.' ∈ text then .floatLiteral
    else .intLiteral

private theorem lookup_marks_eq_none {loneCr : Bool} {text : List Char} {c : Char}
    (hc : isWordChar c = true ∨ c = '"') (hmem : c ∈ text) : (marks loneCr).lookup text = none := by
  rw [List.lookup_eq_none_iff]
  intro entry he
  rw [bne_iff_ne]
  intro ht
  rw [ht] at hmem
  exact not_mem_of_mark he hc hmem

theorem Digits.forall_isDigit {digits : List Char} (hd : Digits digits) :
    ∀ d ∈ digits, isDigit d = true :=
  fun d hmem => isDigit_iff.mpr (hd.2 d hmem)

theorem Digits.exists_mem {digits : List Char} (hd : Digits digits) :
    ∃ d ∈ digits, isDigit d = true := by
  obtain ⟨d, hmem⟩ := List.exists_mem_of_ne_nil digits hd.1
  exact ⟨d, hmem, hd.forall_isDigit d hmem⟩

theorem Digits.not_mem {digits : List Char} (hd : Digits digits) {c : Char}
    (hc : isDigit c = false) : c ∉ digits := by
  intro hmem
  rw [hd.forall_isDigit c hmem] at hc
  exact Bool.true_eq_false_eq_False hc

theorem exists_digits {c : Char} (hc : isDigit c = true) (text : List Char) :
    ∃ digits rest, c :: text = digits ++ rest ∧ Digits digits ∧ EndsRun isDigit rest.head? := by
  refine ⟨(c :: text).takeWhile isDigit, (c :: text).dropWhile isDigit, ?_, ⟨by simp [hc], ?_⟩,
    endsRun_dropWhile isDigit (c :: text)⟩
  · exact List.takeWhile_append_dropWhile.symm
  · intro d hd
    exact isDigit_iff.mp (List.mem_takeWhile_imp hd)

theorem Sign.not_mem {sign : List Char} (hs : Sign sign) {c : Char} (hc : c ≠ '-') : c ∉ sign := by
  rcases hs with rfl | rfl
  · exact List.not_mem_nil
  · simpa using hc

theorem number_head {sign digits : List Char} (hs : Sign sign) (hd : Digits digits)
    (rest : List Char) : ∃ c text, sign ++ digits ++ rest = c :: text ∧ (c = '-' ∨ isDigit c = true) := by
  obtain ⟨d, more, rfl⟩ := List.exists_cons_of_ne_nil hd.1
  have hdigit : isDigit d = true := hd.forall_isDigit d List.mem_cons_self
  rcases hs with rfl | rfl
  · exact ⟨d, more ++ rest, rfl, .inr hdigit⟩
  · exact ⟨'-', d :: more ++ rest, rfl, .inl rfl⟩

theorem ne_number {c : Char} {text sign digits rest : List Char} (hs : Sign sign)
    (hd : Digits digits) (hc : ¬ (c = '-' ∨ isDigit c = true)) :
    c :: text ≠ sign ++ digits ++ rest := by
  intro he
  obtain ⟨d, more, hn, hhead⟩ := number_head hs hd rest
  rw [hn] at he
  rw [← (List.cons.inj he).1] at hhead
  exact hc hhead

theorem number_unique {sign sign' digits digits' rest rest' : List Char} (hs : Sign sign)
    (hd : Digits digits) (hr : EndsRun isDigit rest.head?) (hs' : Sign sign') (hd' : Digits digits')
    (hr' : EndsRun isDigit rest'.head?)
    (he : sign ++ digits ++ rest = sign' ++ digits' ++ rest') :
    sign = sign' ∧ digits = digits' ∧ rest = rest' := by
  have hmixed {digits digits' rest rest' : List Char} (hd : Digits digits)
      (he : [] ++ digits ++ rest = ['-'] ++ digits' ++ rest') : False := by
    obtain ⟨d, more, rfl⟩ := List.exists_cons_of_ne_nil hd.1
    obtain rfl : d = '-' := (List.cons.inj he).1
    exact absurd (hd.forall_isDigit '-' List.mem_cons_self) (by decide)
  have hrun {digits digits' rest rest' : List Char} (hd : Digits digits)
      (hr : EndsRun isDigit rest.head?) (hd' : Digits digits') (hr' : EndsRun isDigit rest'.head?)
      (he : digits ++ rest = digits' ++ rest') : digits = digits' ∧ rest = rest' :=
    run_unique hd.forall_isDigit hr hd'.forall_isDigit hr' he
  rcases hs with rfl | rfl <;> rcases hs' with rfl | rfl
  · exact ⟨rfl, hrun hd hr hd' hr' he⟩
  · exact (hmixed hd he).elim
  · exact (hmixed hd' he.symm).elim
  · exact ⟨rfl, hrun hd hr hd' hr' (List.cons.inj he).2⟩

theorem isWordStart_of_number_head {c : Char} (hc : c = '-' ∨ isDigit c = true) :
    isWordStart c = false := by
  rcases hc with rfl | hc
  · decide
  · exact isWordStart_of_isDigit hc

theorem not_number_head {c : Char} (hc : isWordStart c = true) :
    ¬ (c = '-' ∨ isDigit c = true) := by
  intro hn
  rw [isWordStart_of_number_head hn] at hc
  cases hc

private theorem kind_eq_shownKind {loneCr : Bool} {text : List Char} {kind : TokenKind}
    (h : Spelled loneCr text kind) : kind = shownKind loneCr text := by
  cases h with
  | @word c text hc ht =>
    have hw := isWordStart_iff.mpr hc
    have hpart := isWordChar_of_isWordStart hw
    have hquote : '"' ∉ c :: text := by
      intro hmem
      rcases List.mem_cons.mp hmem with he | hmem
      · rw [← he] at hw
        exact absurd hw (by decide)
      · exact absurd (isWordChar_iff.mpr (ht _ hmem)) (by decide)
    rw [shownKind, lookup_marks_eq_none (.inl hpart) List.mem_cons_self]
    simp only [if_neg hquote, List.head?_cons, Option.any_some, hw, if_true]
  | @integer sign digits hs hd =>
    obtain ⟨d, hmem, hdigit⟩ := hd.exists_mem
    obtain ⟨c, text, he, hc⟩ := number_head hs hd []
    rw [List.append_nil] at he
    have hquote : '"' ∉ sign ++ digits := by
      rw [List.mem_append, not_or]
      exact ⟨hs.not_mem (by decide), hd.not_mem (by decide)⟩
    have hpoint : '.' ∉ sign ++ digits := by
      rw [List.mem_append, not_or]
      exact ⟨hs.not_mem (by decide), hd.not_mem (by decide)⟩
    rw [shownKind, lookup_marks_eq_none (.inl (isWordChar_of_isDigit hdigit))
      (List.mem_append_right _ hmem)]
    simp only [if_neg hquote, if_neg hpoint]
    rw [he]
    simp [isWordStart_of_number_head hc]
  | @float sign digits fraction hs hd hf =>
    obtain ⟨d, hmem, hdigit⟩ := hd.exists_mem
    obtain ⟨c, text, he, hc⟩ := number_head hs hd ('.' :: fraction)
    have hquote : '"' ∉ sign ++ digits ++ '.' :: fraction := by
      simp only [List.mem_append, List.mem_cons, not_or]
      exact ⟨⟨hs.not_mem (by decide), hd.not_mem (by decide)⟩, by decide, hf.not_mem (by decide)⟩
    have hpoint : '.' ∈ sign ++ digits ++ '.' :: fraction := by simp
    rw [shownKind, lookup_marks_eq_none (.inl (isWordChar_of_isDigit hdigit))
      (List.mem_append_left _ (List.mem_append_right _ hmem))]
    simp only [if_neg hquote, if_pos hpoint]
    rw [he]
    simp [isWordStart_of_number_head hc]
  | @string body hb =>
    rw [shownKind, lookup_marks_eq_none (.inr rfl) List.mem_cons_self]
    simp
  | mark hm =>
    rw [shownKind, marks_lookup loneCr _ hm]

theorem Spelled.ne_nil {loneCr : Bool} {text : List Char} {kind : TokenKind}
    (h : Spelled loneCr text kind) : text ≠ [] := by
  cases h with
  | word hc ht => exact List.cons_ne_nil _ _
  | integer hs hd => exact List.append_ne_nil_of_right_ne_nil _ hd.1
  | float hs hd hf => exact List.append_ne_nil_of_right_ne_nil _ (List.cons_ne_nil _ _)
  | string hb => exact List.cons_ne_nil _ _
  | mark hm =>
    have hmarks : ∀ entry ∈ marks loneCr, entry.1 ≠ [] := by cases loneCr <;> decide
    exact hmarks _ hm

theorem Spelled.ne_endOfInput {loneCr : Bool} {text : List Char} {kind : TokenKind}
    (h : Spelled loneCr text kind) : kind ≠ .endOfInput := by
  cases h with
  | word hc ht =>
    unfold wordKind
    split
    · decide
    · split <;> decide
  | integer hs hd => decide
  | float hs hd hf => decide
  | string hb => decide
  | mark hm =>
    have hmarks : ∀ entry ∈ marks loneCr, entry.2 ≠ .endOfInput := by cases loneCr <;> decide
    exact hmarks _ hm

/-- A text is a lexeme of one kind at most. -/
theorem Spelled.kind_unique {loneCr : Bool} {text : List Char} {kind kind' : TokenKind}
    (h : Spelled loneCr text kind) (h' : Spelled loneCr text kind') : kind = kind' :=
  (kind_eq_shownKind h).trans (kind_eq_shownKind h').symm

end Lexing
