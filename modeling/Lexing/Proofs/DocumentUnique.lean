import Lexing.Proofs.Document

/-!
# Documents are read in one way

A text denotes one document at most. Each part of a document shows by its first character what it is,
and a number ends before a character with which no number goes on.
-/

namespace Lexing.Document

section Strings

variable {text rest rest' : List Char} {value value' : List Char}

theorem UnitText.unique {digits digits' more more' : List Char} {unit unit' : Nat}
    (h : UnitText digits unit) (h' : UnitText digits' unit') (he : digits ++ more = digits' ++ more') :
    unit = unit' ∧ more = more' := by
  obtain ⟨rfl, rfl⟩ := List.append_inj he (h.four.trans h'.four.symm)
  exact ⟨h.value.symm.trans h'.value, rfl⟩

theorem not_mem_escapes (c : Char) : ('u', c) ∉ escapes := by
  simp [escapes]

theorem escapes_unique {letter c c' : Char} (h : (letter, c) ∈ escapes) (h' : (letter, c') ∈ escapes) :
    c = c' := by
  have hall : ∀ entry ∈ escapes, ∀ entry' ∈ escapes, entry.1 = entry'.1 → entry.2 = entry'.2 := by
    decide
  exact hall _ h _ h' rfl

/-- A string ends at one place and has one value. -/
theorem StringText.unique (h : StringText text value rest) (h' : StringText text value' rest') :
    value = value' ∧ rest = rest' := by
  induction h generalizing value' with
  | close =>
    cases h' with
    | close => exact ⟨rfl, rfl⟩
    | plain _ hq _ _ => exact absurd rfl hq
  | plain hc hq hb h ih =>
    cases h' with
    | close => exact absurd rfl hq
    | plain _ _ _ h' =>
      obtain ⟨rfl, rfl⟩ := ih h'
      exact ⟨rfl, rfl⟩
    | escape _ _ => exact absurd rfl hb
    | unit _ _ _ => exact absurd rfl hb
    | pair _ _ _ _ _ => exact absurd rfl hb
  | escape hc h ih =>
    cases h' with
    | plain _ _ hb _ => exact absurd rfl hb
    | escape hc' h' =>
      obtain ⟨rfl, rfl⟩ := ih h'
      rw [escapes_unique hc hc']
      exact ⟨rfl, rfl⟩
    | unit _ _ _ => exact absurd hc (not_mem_escapes _)
    | pair _ _ _ _ _ => exact absurd hc (not_mem_escapes _)
  | @unit digits text value rest unit hu hc h ih =>
    generalize ht : '\\' :: 'u' :: (digits ++ text) = whole at h'
    cases h' with
    | close => cases ht
    | plain _ _ hb _ =>
      cases ht
      exact absurd rfl hb
    | escape hc _ =>
      cases ht
      exact absurd hc (not_mem_escapes _)
    | unit hu' _ h' =>
      obtain ⟨rfl, rfl⟩ := hu.unique hu' (by simpa using ht)
      obtain ⟨rfl, rfl⟩ := ih h'
      exact ⟨rfl, rfl⟩
    | pair hu' _ _ _ _ =>
      obtain ⟨rfl, -⟩ := hu.unique hu' (by simpa using ht)
      omega
  | @pair digits digits₂ text value rest high low hu hu₂ hh hl h ih =>
    generalize ht : '\\' :: 'u' :: (digits ++ '\\' :: 'u' :: (digits₂ ++ text)) = whole at h'
    cases h' with
    | close => cases ht
    | plain _ _ hb _ =>
      cases ht
      exact absurd rfl hb
    | escape hc _ =>
      cases ht
      exact absurd hc (not_mem_escapes _)
    | unit hu' _ _ =>
      obtain ⟨rfl, -⟩ := hu.unique hu' (by simpa using ht)
      omega
    | pair hu' hu₂' _ _ h' =>
      obtain ⟨rfl, hmore⟩ := hu.unique hu' (by simpa using ht)
      obtain ⟨rfl, rfl⟩ := hu₂.unique hu₂' (by simpa using hmore)
      obtain ⟨rfl, rfl⟩ := ih h'
      exact ⟨rfl, rfl⟩

end Strings

section Numbers

/-- A character with which a number could go on. -/
def isNumberPart (c : Char) : Bool :=
  isDigit c || c == '.' || c == 'e' || c == 'E'

variable {rest rest' : List Char}

theorem Exponent.endsRun {power : List Char} {exponent : Int} (h : Exponent power exponent)
    (hr : EndsRun isNumberPart rest.head?) :
    EndsRun (fun c => isDigit c || c == '.') (power ++ rest).head? := by
  cases h with
  | none =>
    intro c hc
    have hpart := hr c hc
    simp only [isNumberPart, Bool.or_eq_false_iff] at hpart ⊢
    exact hpart.1.1
  | some he hm hd =>
    rw [List.cons_append, List.head?_cons, endsRun_some]
    rcases he with rfl | rfl <;> decide

/-- Whether there is a mark in front of digits, and which, is seen from the first character. -/
theorem mark_unique {mark mark' digits digits' : List Char}
    (hm : mark = [] ∨ mark = ['+'] ∨ mark = ['-']) (hd : Digits digits)
    (hm' : mark' = [] ∨ mark' = ['+'] ∨ mark' = ['-']) (hd' : Digits digits')
    (he : mark ++ (digits ++ rest) = mark' ++ (digits' ++ rest')) :
    mark = mark' ∧ digits ++ rest = digits' ++ rest' := by
  have hhead {digits rest : List Char} (hd : Digits digits) {c : Char} (hc : isDigit c = false)
      (text : List Char) : digits ++ rest ≠ c :: text := by
    obtain ⟨d, more, rfl⟩ := List.exists_cons_of_ne_nil hd.1
    intro he
    rw [← (List.cons.inj he).1, hd.forall_isDigit d List.mem_cons_self] at hc
    exact Bool.true_eq_false_eq_False hc
  have hplus : isDigit '+' = false := by decide
  have hminus : isDigit '-' = false := by decide
  rcases hm with rfl | rfl | rfl <;> rcases hm' with rfl | rfl | rfl
  · exact ⟨rfl, he⟩
  · exact absurd he (hhead hd hplus _)
  · exact absurd he (hhead hd hminus _)
  · exact absurd he.symm (hhead hd' hplus _)
  · exact ⟨rfl, (List.cons.inj he).2⟩
  · exact absurd (List.cons.inj he).1 (by decide)
  · exact absurd he.symm (hhead hd' hminus _)
  · exact absurd (List.cons.inj he).1 (by decide)
  · exact ⟨rfl, (List.cons.inj he).2⟩

theorem endsRun_isDigit (hr : EndsRun isNumberPart rest.head?) : EndsRun isDigit rest.head? := by
  intro c hc
  have hpart := hr c hc
  simp only [isNumberPart, Bool.or_eq_false_iff] at hpart
  exact hpart.1.1.1

theorem Exponent.unique {power power' : List Char} {exponent exponent' : Int}
    (h : Exponent power exponent) (hr : EndsRun isNumberPart rest.head?)
    (h' : Exponent power' exponent') (hr' : EndsRun isNumberPart rest'.head?)
    (he : power ++ rest = power' ++ rest') : exponent = exponent' ∧ rest = rest' := by
  have hletter {e : Char} (he : e = 'e' ∨ e = 'E') {rest more : List Char}
      (hr : EndsRun isNumberPart rest.head?) : rest ≠ e :: more := by
    rintro rfl
    rw [List.head?_cons, endsRun_some] at hr
    rcases he with rfl | rfl
    · exact absurd hr (by decide)
    · exact absurd hr (by decide)
  cases h with
  | none =>
    cases h' with
    | none => exact ⟨rfl, he⟩
    | some hl _ _ => exact absurd he (hletter hl hr)
  | some hl hm hd =>
    cases h' with
    | none => exact absurd he.symm (hletter hl hr')
    | some hl' hm' hd' =>
      simp only [List.cons_append, List.append_assoc, List.cons.injEq] at he
      obtain ⟨rfl, hmore⟩ := mark_unique hm hd hm' hd' he.2
      obtain ⟨rfl, rfl⟩ := run_unique hd.forall_isDigit (endsRun_isDigit hr) hd'.forall_isDigit
        (endsRun_isDigit hr') hmore
      exact ⟨rfl, rfl⟩

theorem Fraction.unique {point point' fraction fraction' : List Char} (h : Fraction point fraction)
    (hr : EndsRun (fun c => isDigit c || c == '.') rest.head?) (h' : Fraction point' fraction')
    (hr' : EndsRun (fun c => isDigit c || c == '.') rest'.head?)
    (he : point ++ rest = point' ++ rest') : fraction = fraction' ∧ rest = rest' := by
  have hpoint {rest more : List Char} (hr : EndsRun (fun c => isDigit c || c == '.') rest.head?) :
      rest ≠ '.' :: more := by
    rintro rfl
    exact absurd (hr '.' rfl) (by decide)
  have hdigit {rest : List Char} (hr : EndsRun (fun c => isDigit c || c == '.') rest.head?) :
      EndsRun isDigit rest.head? := fun c hc => (Bool.or_eq_false_iff.mp (hr c hc)).1
  cases h with
  | none =>
    cases h' with
    | none => exact ⟨rfl, he⟩
    | some _ => exact absurd he (hpoint hr)
  | some hd =>
    cases h' with
    | none => exact absurd he.symm (hpoint hr')
    | some hd' =>
      exact run_unique hd.forall_isDigit (hdigit hr) hd'.forall_isDigit (hdigit hr')
        (List.cons.inj he).2

/-- A number that cannot go on ends at one place and has one value. -/
theorem NumberText.unique {text text' : List Char} {negative negative' : Bool} {q q' : ℚ}
    (h : NumberText text negative q) (hr : EndsRun isNumberPart rest.head?)
    (h' : NumberText text' negative' q') (hr' : EndsRun isNumberPart rest'.head?)
    (he : text ++ rest = text' ++ rest') : negative = negative' ∧ q = q' ∧ rest = rest' := by
  have hwhole {point fraction power rest : List Char} {exponent : Int} (hf : Fraction point fraction)
      (hp : Exponent power exponent) (hr : EndsRun isNumberPart rest.head?) :
      EndsRun isDigit (point ++ (power ++ rest)).head? := by
    cases hf with
    | none => exact fun c hc => (Bool.or_eq_false_iff.mp (hp.endsRun hr c hc)).1
    | some _ => exact (endsRun_some _ _).mpr (by decide)
  obtain ⟨hs, hw, -, hf, hp⟩ := h
  obtain ⟨hs', hw', -, hf', hp'⟩ := h'
  simp only [List.append_assoc] at he
  obtain ⟨rfl, rfl, htail⟩ := number_unique hs hw (hwhole hf hp hr) hs' hw' (hwhole hf' hp' hr')
    (by simpa using he)
  obtain ⟨rfl, hpower⟩ := hf.unique (hp.endsRun hr) hf' (hp'.endsRun hr') htail
  obtain ⟨rfl, rfl⟩ := hp.unique hr hp' hr' hpower
  exact ⟨rfl, rfl, rfl⟩

theorem literal_head {spelling : List Char} {d : Document} (h : (spelling, d) ∈ literals) :
    ∃ c more, spelling = c :: more ∧ isWordStart c = true := by
  have hall : ∀ entry ∈ literals, ∃ c more, entry.1 = c :: more ∧ isWordStart c = true := by
    simp [literals]
    decide
  exact hall _ h

theorem NumberText.head {text : List Char} {negative : Bool} {q : ℚ} (h : NumberText text negative q) :
    ∃ c more, text = c :: more ∧ (c = '-' ∨ isDigit c = true) := by
  obtain ⟨hs, hw, -, -, -⟩ := h
  rw [← List.append_assoc]
  exact number_head hs hw _

theorem Scalar.head {text : List Char} {d : Document} (h : Scalar text d) :
    ∃ c more, text = c :: more ∧ (c = '-' ∨ isWordChar c = true) := by
  cases h with
  | literal h =>
    obtain ⟨c, more, rfl, hc⟩ := literal_head h
    exact ⟨c, more, rfl, .inr (isWordChar_of_isWordStart hc)⟩
  | number h =>
    obtain ⟨c, more, rfl, hc⟩ := h.head
    exact ⟨c, more, rfl, hc.imp_right isWordChar_of_isDigit⟩

/-- No name or number begins with a mark. -/
theorem Scalar.ne_mark {text : List Char} {d : Document} (h : Scalar text d) {c : Char}
    (hc : isWordChar c = false) (hm : c ≠ '-') (more : List Char) : c :: more ≠ text ++ rest := by
  obtain ⟨e, text, rfl, he⟩ := h.head
  intro heq
  obtain rfl := (List.cons.inj heq).1
  rw [hc] at he
  exact he.elim hm Bool.false_ne_true

/-- A name or a number that cannot go on ends at one place and has one value. -/
theorem Scalar.unique {text text' : List Char} {d d' : Document} (h : Scalar text d)
    (hr : EndsRun isNumberPart rest.head?) (h' : Scalar text' d')
    (hr' : EndsRun isNumberPart rest'.head?) (he : text ++ rest = text' ++ rest') :
    d = d' ∧ rest = rest' := by
  have happart {spelling text rest rest' : List Char} {d : Document} {negative : Bool} {q : ℚ}
      (h : (spelling, d) ∈ literals) (h' : NumberText text negative q) :
      spelling ++ rest ≠ text ++ rest' := by
    obtain ⟨c, more, rfl, hc⟩ := literal_head h
    obtain ⟨c', more', rfl, hc'⟩ := h'.head
    intro he
    rw [← (List.cons.inj he).1] at hc'
    exact not_number_head hc hc'
  cases h with
  | literal h =>
    cases h' with
    | literal h' =>
      simp only [literals, List.mem_cons, Prod.mk.injEq, List.not_mem_nil, or_false] at h h'
      rcases h with ⟨rfl, rfl⟩ | ⟨rfl, rfl⟩ | ⟨rfl, rfl⟩ <;>
        rcases h' with ⟨rfl, rfl⟩ | ⟨rfl, rfl⟩ | ⟨rfl, rfl⟩ <;> simp_all
    | number h' => exact absurd he (happart h h')
  | number h =>
    cases h' with
    | literal h' => exact absurd he.symm (happart h' h)
    | number h' =>
      obtain ⟨rfl, rfl, rfl⟩ := h.unique hr h' hr' he
      exact ⟨rfl, rfl⟩

end Numbers

section Documents

variable {text rest rest' : List Char}

theorem Gap.unique (h : Gap text rest) (hr : EndsRun isSpace rest.head?) (h' : Gap text rest')
    (hr' : EndsRun isSpace rest'.head?) : rest = rest' := by
  obtain ⟨blanks, rfl, hb⟩ := h
  obtain ⟨blanks', he, hb'⟩ := h'
  exact (run_unique hb hr hb' hr' he).2

theorem Gap.mark_unique {c c' : Char} (hc : isSpace c = false) (hc' : isSpace c' = false)
    (h : Gap text (c :: rest)) (h' : Gap text (c' :: rest')) : c = c' ∧ rest = rest' :=
  List.cons.inj (h.unique ((endsRun_some _ _).mpr hc) h' ((endsRun_some _ _).mpr hc'))

/-- A blank ends a number, as well as what may stand behind blanks. -/
theorem Gap.endsRun (h : Gap text rest) (hr : EndsRun isNumberPart rest.head?) :
    EndsRun isNumberPart text.head? := by
  obtain ⟨blanks, rfl, hb⟩ := h
  cases blanks with
  | nil => exact hr
  | cons c blanks =>
    have hc := hb c List.mem_cons_self
    simp only [isSpace, Bool.or_eq_true, beq_iff_eq] at hc
    rw [List.cons_append, List.head?_cons, endsRun_some]
    rcases hc with ((rfl | rfl) | rfl) | rfl <;> decide

/-- A value begins neither with a blank nor with a closing bracket. -/
theorem Derives.value_head {d : Document} (h : Derives (.value d) text rest) :
    EndsRun isSpace text.head? ∧ text.head? ≠ some ']' := by
  have hmark {c : Char} (more : List Char) (hs : isSpace c = false) (hc : c ≠ ']') :
      EndsRun isSpace (c :: more).head? ∧ (c :: more).head? ≠ some ']' := by
    simp [hs, hc]
  cases h with
  | scalar h ht =>
    obtain ⟨c, more, rfl, hc⟩ := h.head
    rw [ht]
    apply hmark
    · by_contra hspace
      simp only [Bool.not_eq_false, isSpace, Bool.or_eq_true, beq_iff_eq] at hspace
      rcases hspace with ((rfl | rfl) | rfl) | rfl <;> exact absurd hc (by decide)
    · rintro rfl
      exact absurd hc (by decide)
  | string _ => exact hmark _ (by decide) (by decide)
  | emptyArray _ => exact hmark _ (by decide) (by decide)
  | array _ => exact hmark _ (by decide) (by decide)
  | emptyObject _ => exact hmark _ (by decide) (by decide)
  | object _ => exact hmark _ (by decide) (by decide)

theorem Derives.moreItems_head {ds : List Document} (h : Derives (.moreItems ds) text rest) :
    EndsRun isSpace text.head? ∧ EndsRun isNumberPart text.head? := by
  cases h with
  | lastItem => exact ⟨(endsRun_some _ _).mpr (by decide), (endsRun_some _ _).mpr (by decide)⟩
  | nextItem _ => exact ⟨(endsRun_some _ _).mpr (by decide), (endsRun_some _ _).mpr (by decide)⟩

theorem Derives.moreMembers_head {ms : List (List Char × Document)}
    (h : Derives (.moreMembers ms) text rest) :
    EndsRun isSpace text.head? ∧ EndsRun isNumberPart text.head? := by
  cases h with
  | lastMember => exact ⟨(endsRun_some _ _).mpr (by decide), (endsRun_some _ _).mpr (by decide)⟩
  | nextMember _ => exact ⟨(endsRun_some _ _).mpr (by decide), (endsRun_some _ _).mpr (by decide)⟩

/-- Where there are items, the array does not end at once. -/
theorem Derives.not_gap_bracket {ds : List Document} (h : Derives (.items ds) text rest) :
    ¬ Gap text (']' :: rest') := by
  intro hgap
  cases h with
  | item ha hd _ _ =>
    obtain ⟨hspace, hbracket⟩ := hd.value_head
    rw [← hgap.unique ((endsRun_some _ _).mpr (by decide)) ha hspace] at hbracket
    exact hbracket rfl

theorem Derives.not_gap_brace {ms : List (List Char × Document)}
    (h : Derives (.members ms) text rest) : ¬ Gap text ('\x7d' :: rest') := by
  intro hgap
  cases h with
  | member ha _ _ _ _ _ _ =>
    obtain ⟨hmark, -⟩ := hgap.mark_unique (by decide) (by decide) ha
    exact absurd hmark (by decide)

/-- What a part comes to at a text. A value has to end where no number goes on. -/
def Part.Unique (text rest : List Char) : Part → Prop
  | .value d => EndsRun isNumberPart rest.head? → ∀ d' rest', Derives (.value d') text rest' →
      EndsRun isNumberPart rest'.head? → d = d' ∧ rest = rest'
  | .items ds => ∀ ds' rest', Derives (.items ds') text rest' → ds = ds' ∧ rest = rest'
  | .moreItems ds => ∀ ds' rest', Derives (.moreItems ds') text rest' → ds = ds' ∧ rest = rest'
  | .members ms => ∀ ms' rest', Derives (.members ms') text rest' → ms = ms' ∧ rest = rest'
  | .moreMembers ms => ∀ ms' rest', Derives (.moreMembers ms') text rest' → ms = ms' ∧ rest = rest'

/-- Each part ends at one place and is one thing. -/
theorem Derives.unique {part : Part} (h : Derives part text rest) : part.Unique text rest := by
  have hquote : isWordChar '"' = false := by decide
  have hbracket : isWordChar '[' = false := by decide
  have hbrace : isWordChar '\x7b' = false := by decide
  induction h with
  | scalar h ht =>
    intro hr d' rest' h' hr'
    cases h' with
    | scalar h' ht' => exact h.unique hr h' hr' (ht.symm.trans ht')
    | string _ => exact absurd ht (h.ne_mark hquote (by decide) _)
    | emptyArray _ => exact absurd ht (h.ne_mark hbracket (by decide) _)
    | array _ => exact absurd ht (h.ne_mark hbracket (by decide) _)
    | emptyObject _ => exact absurd ht (h.ne_mark hbrace (by decide) _)
    | object _ => exact absurd ht (h.ne_mark hbrace (by decide) _)
  | string h =>
    intro hr d' rest' h' hr'
    cases h' with
    | scalar h' ht' => exact absurd ht' (h'.ne_mark hquote (by decide) _)
    | string h' =>
      obtain ⟨rfl, rfl⟩ := h.unique h'
      exact ⟨rfl, rfl⟩
  | emptyArray h =>
    intro hr d' rest' h' hr'
    cases h' with
    | scalar h' ht' => exact absurd ht' (h'.ne_mark hbracket (by decide) _)
    | emptyArray h' =>
      exact ⟨rfl, (h.mark_unique (by decide) (by decide) h').2⟩
    | array h' => exact absurd h h'.not_gap_bracket
  | array h ih =>
    intro hr d' rest' h' hr'
    cases h' with
    | scalar h' ht' => exact absurd ht' (h'.ne_mark hbracket (by decide) _)
    | emptyArray h' => exact absurd h' h.not_gap_bracket
    | array h' =>
      obtain ⟨rfl, rfl⟩ := ih _ _ h'
      exact ⟨rfl, rfl⟩
  | item ha hd hc h ihd ih =>
    intro ds' rest' h'
    cases h' with
    | item ha' hd' hc' h' =>
      obtain rfl := ha.unique hd.value_head.1 ha' hd'.value_head.1
      obtain ⟨rfl, rfl⟩ := ihd (hc.endsRun h.moreItems_head.2) _ _ hd' (hc'.endsRun h'.moreItems_head.2)
      obtain rfl := hc.unique h.moreItems_head.1 hc' h'.moreItems_head.1
      obtain ⟨rfl, rfl⟩ := ih _ _ h'
      exact ⟨rfl, rfl⟩
  | lastItem =>
    intro ds' rest' h'
    cases h' with
    | lastItem => exact ⟨rfl, rfl⟩
  | nextItem h ih =>
    intro ds' rest' h'
    cases h' with
    | nextItem h' => exact ih _ _ h'
  | emptyObject h =>
    intro hr d' rest' h' hr'
    cases h' with
    | scalar h' ht' => exact absurd ht' (h'.ne_mark hbrace (by decide) _)
    | emptyObject h' =>
      exact ⟨rfl, (h.mark_unique (by decide) (by decide) h').2⟩
    | object h' => exact absurd h h'.not_gap_brace
  | object h ih =>
    intro hr d' rest' h' hr'
    cases h' with
    | scalar h' ht' => exact absurd ht' (h'.ne_mark hbrace (by decide) _)
    | emptyObject h' => exact absurd h' h.not_gap_brace
    | object h' =>
      obtain ⟨rfl, rfl⟩ := ih _ _ h'
      exact ⟨rfl, rfl⟩
  | member ha hn hc hd hv hf h ihv ih =>
    intro ms' rest' h'
    cases h' with
    | member ha' hn' hc' hd' hv' hf' h' =>
      obtain ⟨-, rfl⟩ := ha.mark_unique (by decide) (by decide) ha'
      obtain ⟨rfl, rfl⟩ := hn.unique hn'
      obtain ⟨-, rfl⟩ := hc.mark_unique (by decide) (by decide) hc'
      obtain rfl := hd.unique hv.value_head.1 hd' hv'.value_head.1
      obtain ⟨rfl, rfl⟩ :=
        ihv (hf.endsRun h.moreMembers_head.2) _ _ hv' (hf'.endsRun h'.moreMembers_head.2)
      obtain rfl := hf.unique h.moreMembers_head.1 hf' h'.moreMembers_head.1
      obtain ⟨rfl, rfl⟩ := ih _ _ h'
      exact ⟨rfl, rfl⟩
  | lastMember =>
    intro ms' rest' h'
    cases h' with
    | lastMember => exact ⟨rfl, rfl⟩
  | nextMember h ih =>
    intro ms' rest' h'
    cases h' with
    | nextMember h' => exact ih _ _ h'

/-- A text denotes one document at most. -/
theorem Denotes.unique {d d' : Document} (h : Denotes text d) (h' : Denotes text d') : d = d' := by
  obtain ⟨a, b, ha, hd, hb⟩ := h
  obtain ⟨a', b', ha', hd', hb'⟩ := h'
  obtain rfl := ha.unique hd.value_head.1 ha' hd'.value_head.1
  exact (hd.unique (hb.endsRun (endsRun_none _)) _ _ hd' (hb'.endsRun (endsRun_none _))).1

end Documents

end Lexing.Document
