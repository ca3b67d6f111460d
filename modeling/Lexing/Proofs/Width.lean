import Lexing.Proofs.Restart

/-!
# The width of integers

The width of the range of integers is looked at where an integer literal ends, and nowhere else. Two
scans of different widths go through a text together up to the first integer that only the wider range
holds, or neither of them.
-/

namespace Lexing

/-- The options with another width of integers. -/
def Options.withWidth (options : Options) (bits : Nat)
    (h : minIntBits ≤ bits ∧ bits ≤ maxIntBits) : Options :=
  { options with intBits := bits, intBits_mem := h }

/-- The value is in the signed range of a width. -/
def Fits (bits : Nat) (value : Int) : Prop :=
  -2 ^ (bits - 1) ≤ value ∧ value ≤ 2 ^ (bits - 1) - 1

instance (bits : Nat) (value : Int) : Decidable (Fits bits value) :=
  inferInstanceAs (Decidable (_ ∧ _))

/-- A text begins with the sign and the digits of an integer literal. -/
structure BeginsInteger (text sign digits : List Char) : Prop where
  isSign : Sign sign
  isDigits : Digits digits
  ends : ∃ rest, text = sign ++ (digits ++ rest) ∧ EndsRun isDigit rest.head? ∧
    rest.head? ≠ some '.'

/-- A scan comes to an integer literal at an offset. -/
def IntegerAt (options : Options) (source : List Char) (p : Nat) (sign digits : List Char) : Prop :=
  LexemeStart options source p ∧ BeginsInteger (source.drop p) sign digits

/-- The line and the column, in the order of reading. -/
def Location.place (location : Location) : Int ×ₗ Int :=
  toLex (location.line, location.column)

section Ranges

theorem Options.fits_iff (options : Options) (value : Int) :
    Fits options.intBits value ↔ options.intMin ≤ value ∧ value ≤ options.intMax := by
  rw [Fits, intMin, intMax, Numeral.twoPow_eq, Nat.cast_pow, Nat.cast_ofNat]

/-- The ranges of two widths lie one in the other. -/
theorem Fits.mono {bits bits' : Nat} {value : Int} (h : Fits bits value) (hb : bits ≤ bits') :
    Fits bits' value := by
  have hpow : (2 : Int) ^ (bits - 1) ≤ 2 ^ (bits' - 1) :=
    pow_le_pow_right₀ (by norm_num) (Nat.sub_le_sub_right hb 1)
  obtain ⟨hmin, hmax⟩ := h
  exact ⟨by omega, by omega⟩

theorem BeginsInteger.refused {options : Options} {text sign digits : List Char}
    (h : BeginsInteger text sign digits)
    (hv : ¬ Fits options.intBits (Scan.signedValue sign digits)) :
    Refused options text .malformedNumber := by
  obtain ⟨hs, hd, rest, rfl, hr, hp⟩ := h
  refine .integer hs hd hr hp (.inr ?_)
  rw [options.fits_iff] at hv
  omega

end Ranges

namespace Scan

variable {options : Options} {bits : Nat} (hb : minIntBits ≤ bits ∧ bits ≤ maxIntBits)

theorem map_eq_error {α β : Type} {f : α → β} {scan : Scan α} {fault : Fault}
    (h : (scan.map f).outcome = .error fault) : scan.outcome = .error fault := by
  cases ho : scan.outcome with
  | error other => simpa [map, ho, Except.map] using h
  | ok a => simp [map, ho, Except.map] at h

/-- A fault of range is found at an integer literal that the range does not hold. -/
theorem beginsInteger_of_next {c : Char} {text shown : List Char} (hblank : isBlank c = false)
    (h : (next options c text).outcome = .error (.integerOutOfRange shown)) :
    ∃ sign digits, BeginsInteger (c :: text) sign digits ∧ shown = sign ++ digits ∧
      ¬ Fits options.intBits (signedValue sign digits) := by
  have hrefused : Refused options (c :: text) .malformedNumber := refused_of_next hblank h
  generalize htext : c :: text = whole at hrefused ⊢
  have hnumber {sign digits rest : List Char} (hs : Sign sign) (hd : Digits digits)
      (he : c :: text = sign ++ (digits ++ rest)) :
      (number options (sign ++ (digits ++ rest))).outcome = .error (.integerOutOfRange shown) := by
    obtain ⟨c', text', he', -, hn⟩ := next_of_digits options hs hd rest
    obtain ⟨rfl, rfl⟩ := List.cons.inj (he.trans he')
    rw [hn] at h
    exact map_eq_error h
  cases hrefused with
  | minusPoint rest =>
    obtain ⟨rfl, rfl⟩ := List.cons.inj htext
    obtain ⟨fault, hfault, hn⟩ := number_minus_point options rest
    rw [next_minus] at h
    have ho : (number options ('-' :: '.' :: rest)).outcome = _ := map_eq_error h
    rw [hn] at ho
    rcases hfault with rfl | rfl <;> cases ho
  | @trailingPoint sign digits rest hs hd hr =>
    have ho := hnumber hs hd htext
    rw [number_trailingDot options hs hd hr] at ho
    cases ho
  | @integer sign digits rest hs hd hr hp _ =>
    have ho := hnumber hs hd htext
    rw [number_integer options hs hd hr hp] at ho
    change intLiteral options sign digits = _ at ho
    rw [intLiteral_eq options sign hd.1] at ho
    refine ⟨sign, digits, ⟨hs, hd, rest, rfl, hr, hp⟩, ?_⟩
    split at ho
    · cases ho
    · split at ho
      · cases ho
      · rename_i hv
        rw [options.fits_iff]
        cases ho
        exact ⟨rfl, hv⟩
  | @float sign digits fraction rest hs hd hf hr _ =>
    have ho := hnumber hs hd htext
    rw [number_float options hs hd hf hr] at ho
    change floatLiteral sign digits fraction = _ at ho
    simp only [floatLiteral] at ho
    generalize Numeral.Binary64.ofDecimal? _ _ _ = value? at ho
    cases value? <;> cases ho

theorem intLiteral_withWidth (hle : options.intBits ≤ bits) (sign digits : List Char) :
    intLiteral options sign digits = intLiteral (options.withWidth bits hb) sign digits ∨
      intLiteral options sign digits = .error (.integerOutOfRange (sign ++ digits)) := by
  by_cases hd : digits = []
  · exact .inl (by simp [intLiteral, hd])
  · rw [intLiteral_eq options sign hd, intLiteral_eq _ sign hd]
    by_cases hv : Fits options.intBits (signedValue sign digits)
    · have hwide := (Options.fits_iff (options.withWidth bits hb) _).mp (hv.mono hle)
      rw [if_pos ((options.fits_iff _).mp hv), if_pos hwide]
      exact .inl rfl
    · rw [if_neg ((options.fits_iff _).not.mp hv)]
      split
      · exact .inl rfl
      · exact .inr rfl

theorem number_withWidth (hle : options.intBits ≤ bits) (text : List Char) :
    number options text = number (options.withWidth bits hb) text ∨
      ∃ shown, (number options text).outcome = .error (.integerOutOfRange shown) := by
  simp only [number]
  split
  · exact .inl rfl
  · rcases intLiteral_withWidth hb hle (minusSign text).1
      ((minusSign text).2.takeWhile isDigit) with hsame | hrange
    · exact .inl (by rw [hsame])
    · exact .inr ⟨_, hrange⟩

theorem minus_withWidth (hle : options.intBits ≤ bits) (rest : List Char) :
    minus options rest = minus (options.withWidth bits hb) rest ∨
      ∃ shown, (minus options rest).outcome = .error (.integerOutOfRange shown) := by
  unfold minus
  split
  · exact .inl rfl
  · split
    · exact number_withWidth hb hle _
    · exact .inl rfl
  · exact .inl rfl

/-- The next scan finds the same in both widths, unless an integer is out of the smaller range. -/
theorem next_withWidth (hle : options.intBits ≤ bits) (c : Char) (text : List Char) :
    next options c text = next (options.withWidth bits hb) c text ∨
      ∃ shown, (next options c text).outcome = .error (.integerOutOfRange shown) := by
  have hmap {scan scan' : Scan Lexeme}
      (h : scan = scan' ∨ ∃ shown, scan.outcome = .error (.integerOutOfRange shown)) :
      scan.map some = scan'.map some ∨
        ∃ shown, (scan.map some).outcome = .error (.integerOutOfRange shown) := by
    rcases h with rfl | ⟨shown, hrange⟩
    · exact .inl rfl
    · exact .inr ⟨shown, by rw [map, hrange]; rfl⟩
  rcases firstChar_cases c with hc | rfl | ⟨hc, hm⟩ | hc | rfl | hc | rfl | hc
  · rw [next_of_isWordStart _ _ hc, next_of_isWordStart _ _ hc]
    exact .inl rfl
  · rw [next_minus, next_minus]
    exact hmap (minus_withWidth hb hle text)
  · rw [next_of_isOperatorChar _ _ hc hm, next_of_isOperatorChar _ _ hc hm]
    exact .inl rfl
  · rw [next_of_isDigit _ _ hc, next_of_isDigit _ _ hc]
    exact hmap (number_withWidth hb hle _)
  · rw [next_quote, next_quote]
    exact .inl rfl
  · rw [next_of_isLineTerminator _ _ hc, next_of_isLineTerminator _ _ hc]
    exact .inl rfl
  · rw [next_hash, next_hash]
    exact .inl rfl
  · rw [next_of_unclaimed _ _ hc, next_of_unclaimed _ _ hc]
    exact .inl rfl

end Scan

namespace Split

variable {options : Options} {bits : Nat} (hb : minIntBits ≤ bits ∧ bits ≤ maxIntBits)

/-- Two widths split a text in the same way, unless the smaller one stops at an integer. The pieces
before that integer are the same. -/
theorem ofText_withWidth (hle : options.intBits ≤ bits) (text : List Char) :
    ofText options text = ofText (options.withWidth bits hb) text ∨
      ∃ done stop shown, ofText options text = ⟨done, some stop⟩ ∧
        stop.fault = .integerOutOfRange shown ∧
        done <+: (ofText (options.withWidth bits hb) text).pieces := by
  induction text using ofText.induct options with
  | case1 => exact .inl (by rw [ofText_nil, ofText_nil])
  | case2 c text hblank ih =>
    rw [ofText_blank _ hblank, ofText_blank _ hblank]
    rcases ih with hsame | ⟨done, stop, shown, hs, hfault, hdone⟩
    · exact .inl (by rw [hsame])
    · exact .inr ⟨.blank c :: done, stop, shown, by rw [hs]; rfl, hfault,
        (List.prefix_cons_inj _).mpr hdone⟩
  | case3 c text hblank scan lexeme? ho ih =>
    rw [Bool.not_eq_true] at hblank
    rcases Scan.next_withWidth hb hle c text with hnext | ⟨shown, hrange⟩
    · have ho' := ho
      rw [show scan = _ from hnext] at ho'
      rw [ofText_of_ok hblank ho, ofText_of_ok hblank ho', ← hnext]
      rcases ih with hsame | ⟨done, stop, shown, hs, hfault, hdone⟩
      · exact .inl (by rw [hsame])
      · exact .inr ⟨_ :: done, stop, shown, by rw [hs]; rfl, hfault,
          (List.prefix_cons_inj _).mpr hdone⟩
    · rw [show (Scan.next options c text).outcome = _ from ho] at hrange
      cases hrange
  | case4 c text hblank scan fault ho =>
    rw [Bool.not_eq_true] at hblank
    rcases Scan.next_withWidth hb hle c text with hnext | ⟨shown, hrange⟩
    · have ho' := ho
      rw [show scan = _ from hnext] at ho'
      rw [ofText_of_error hblank ho, ofText_of_error hblank ho', hnext]
      exact .inl rfl
    · rw [ofText_of_error hblank hrange]
      exact .inr ⟨[], _, shown, rfl, rfl, List.nil_prefix⟩

end Split

section Tokenize

variable {options : Options} {bits : Nat} (hb : minIntBits ≤ bits ∧ bits ≤ maxIntBits)
variable {source : List Char}

theorem layOut_withWidth (n : Nat) (pieces : List Piece) :
    (cursorAt options.loneCr source n).layOut options source pieces =
      (cursorAt options.loneCr source n).layOut (options.withWidth bits hb) source pieces := by
  have hmap := @layOut_map options (options.withWidth bits hb) source source id n n pieces
    fun _ _ _ => rfl
  rwa [List.map_id] at hmap

/-- The width shows in no other diagnostic than that of a fault of range. -/
theorem Fault.diagnose_withWidth {fault : Fault} (h : ∀ shown, fault ≠ .integerOutOfRange shown)
    (location : Location) (line : List Char) :
    fault.diagnose options location line =
      fault.diagnose (options.withWidth bits hb) location line := by
  cases fault with
  | integerOutOfRange shown => exact absurd rfl (h shown)
  | _ => rfl

/-- Two widths come to the same, unless the smaller one stops at an integer out of its range. -/
theorem stop_of_tokenize_ne (hle : options.intBits ≤ bits)
    (h : tokenize options source ≠ tokenize (options.withWidth bits hb) source) :
    ∃ done stop shown, Split.ofText options source = ⟨done, some stop⟩ ∧
      stop.fault = .integerOutOfRange shown ∧
      done <+: (Split.ofText (options.withWidth bits hb) source).pieces := by
  rcases Split.ofText_withWidth hb hle source with hsame | hstops
  · obtain ⟨pieces, stop, hs⟩ :
        ∃ pieces stop, Split.ofText options source = ⟨pieces, stop⟩ := ⟨_, _, rfl⟩
    have hs' := hsame.symm.trans hs
    cases stop with
    | none =>
      have hok := (tokenize_eq_ok_iff options source).mpr ⟨pieces, hs, layOut_withWidth hb 0 pieces⟩
      have hok' := (tokenize_eq_ok_iff (options.withWidth bits hb) source).mpr ⟨pieces, hs', rfl⟩
      exact absurd (hok.trans hok'.symm) h
    | some stop =>
      by_cases hrange : ∃ shown, stop.fault = .integerOutOfRange shown
      · obtain ⟨shown, hfault⟩ := hrange
        exact ⟨pieces, stop, shown, hs, hfault, by rw [hs']⟩
      · have herror := (tokenize_eq_error_iff options source).mpr ⟨pieces, stop, hs,
          Fault.diagnose_withWidth hb (fun shown hfault => hrange ⟨shown, hfault⟩) _ _⟩
        have herror' := (tokenize_eq_error_iff (options.withWidth bits hb) source).mpr
          ⟨pieces, stop, hs', rfl⟩
        exact absurd (herror.trans herror'.symm) h
  · exact hstops

theorem place_le_place {m n : Nat} (hmn : m ≤ n) (hn : n ≤ source.length) :
    ((cursorAt options.loneCr source m).location options).place ≤
      ((cursorAt options.loneCr source n).location options).place := by
  rcases Nat.lt_or_eq_of_le hmn with hlt | rfl
  · have hplace : (cursorAt options.loneCr source m).position.place <
        (cursorAt options.loneCr source n).position.place := place_lt_place hlt hn
    refine Prod.Lex.toLex_le_toLex.mpr ?_
    rcases Prod.Lex.toLex_lt_toLex.mp hplace with hline | ⟨hline, hcolumn⟩
    · exact .inl (Int.ofNat_lt.mpr hline)
    · exact .inr ⟨congrArg Int.ofNat hline, Int.ofNat_le.mpr hcolumn.le⟩
  · exact le_rfl

/-- The integers before the place where the smaller width stops are all in its range. -/
theorem fits_of_integerAt {done : List Piece} {stop : Stop} {q : Nat} {sign digits : List Char}
    (hs : Split.ofText options source = ⟨done, some stop⟩)
    (hdone : done <+: (Split.ofText (options.withWidth bits hb) source).pieces)
    (hq : q < extent done) (h : IntegerAt (options.withWidth bits hb) source q sign digits) :
    Fits options.intBits (Scan.signedValue sign digits) := by
  by_contra hv
  obtain ⟨⟨hreached, -⟩, hinteger⟩ := h
  obtain ⟨passed, rfl, hpassed⟩ := hreached.split
  -- both widths have the pieces up to this integer in common
  have hinit : passed <+: done := by
    rw [hpassed] at hdone
    refine (List.prefix_or_prefix_of_prefix hdone (List.prefix_append passed _)).resolve_left ?_
    rintro ⟨more, rfl⟩
    rw [extent_append] at hq
    omega
  obtain ⟨left, rfl⟩ := hinit
  obtain ⟨rest, hsource, hrest⟩ := Split.ofText_append hs
  have hdrop : source.drop (extent passed) = rest := by
    rw [hsource]
    exact List.drop_left
  rw [hdrop] at hinteger
  obtain ⟨c, text, fault, rfl, hblank, ho, -⟩ := Scan.next_of_refused (hinteger.refused hv)
  rw [Split.ofText_of_error hblank ho, Split.mk.injEq] at hrest
  rw [← hrest.1, List.append_nil] at hq
  exact lt_irrefl _ hq

theorem tokenize_ok_withWidth (hle : options.intBits ≤ bits) {tokens : List Token}
    (h : tokenize options source = .ok tokens) :
    tokenize (options.withWidth bits hb) source = .ok tokens := by
  by_contra hne
  rw [← h] at hne
  obtain ⟨done, stop, shown, hs, -⟩ := stop_of_tokenize_ne hb hle (Ne.symm hne)
  obtain ⟨pieces, hs', -⟩ := (tokenize_eq_ok_iff options source).mp h
  cases hs.symm.trans hs'

/-- The smaller width fails where the greater one does, or at an integer before that. -/
theorem tokenize_error_withWidth (hle : options.intBits ≤ bits) {d : Diagnostic}
    (hd : tokenize (options.withWidth bits hb) source = .error d) :
    ∃ d' place place', tokenize options source = .error d' ∧ d.location = some place ∧
      d'.location = some place' ∧ place'.place ≤ place.place := by
  obtain ⟨pieces, stop, hs, rfl⟩ := (tokenize_eq_error_iff (options.withWidth bits hb) source).mp hd
  have hplace := Fault.location_diagnose (options.withWidth bits hb) stop.fault
  by_cases hsame : tokenize options source = tokenize (options.withWidth bits hb) source
  · exact ⟨_, _, _, hsame.trans hd, hplace _ _, hplace _ _, le_rfl⟩
  · obtain ⟨done, stop', shown, hs', -, hdone⟩ := stop_of_tokenize_ne hb hle hsame
    obtain ⟨later, hlater⟩ := hdone
    rw [hs] at hlater
    obtain rfl : done ++ later = pieces := hlater
    obtain ⟨c, text, hdrop, -⟩ := next_of_split hs
    have hextent : extent done ≤ extent (done ++ later) := by
      rw [extent_append]
      exact Nat.le_add_right _ _
    exact ⟨_, _, _, (tokenize_eq_error_iff options source).mpr ⟨done, stop', hs', rfl⟩,
      hplace _ _, Fault.location_diagnose _ _ _ _, place_le_place hextent (le_length_of_drop hdrop)⟩

/-- What a width has split off is where a greater one comes to as well. -/
theorem lexemeStart_withWidth {done : List Piece} {stop : Stop}
    (hs : Split.ofText options source = ⟨done, some stop⟩)
    (hdone : done <+: (Split.ofText (options.withWidth bits hb) source).pieces) :
    LexemeStart (options.withWidth bits hb) source (extent done) := by
  obtain ⟨later, hlater⟩ := hdone
  obtain ⟨stop', hs'⟩ :
      ∃ stop', Split.ofText (options.withWidth bits hb) source = ⟨done ++ later, stop'⟩ :=
    ⟨_, by rw [hlater]⟩
  have hreached := Reached.of_split .start hs'
  rw [Nat.zero_add] at hreached
  exact ⟨hreached, (lexemeStart_of_split hs).2⟩

/-- What a width accepts every greater width accepts and reads as the same, and it fails no later than
a greater one. Where two widths come to different things the smaller one fails at the first integer
literal that is out of its range. -/
theorem tokenize_withWidth (options : Options) {bits : Nat}
    (hb : minIntBits ≤ bits ∧ bits ≤ maxIntBits) (hle : options.intBits ≤ bits)
    (source : List Char) :
    let wider := options.withWidth bits hb
    (∀ tokens, tokenize options source = .ok tokens → tokenize wider source = .ok tokens) ∧
    (∀ d, tokenize wider source = .error d → ∃ d' place place',
      tokenize options source = .error d' ∧ d.location = some place ∧ d'.location = some place' ∧
        place'.place ≤ place.place) ∧
    (tokenize options source ≠ tokenize wider source → ∃ d p sign digits,
      FailsAt options source p d ∧ d.kind = .malformedNumber ∧
      d.message = "integer literal '" ++ Fault.shownNumber (sign ++ digits) ++ "' out of range" ∧
      d.hint = some (Fault.rangeHint options) ∧
      IntegerAt wider source p sign digits ∧
      ¬ Fits options.intBits (Scan.signedValue sign digits) ∧
      ∀ q < p, ∀ sign digits, IntegerAt wider source q sign digits →
        Fits options.intBits (Scan.signedValue sign digits)) := by
  intro wider
  refine ⟨fun tokens h => tokenize_ok_withWidth hb hle h,
    fun d hd => tokenize_error_withWidth hb hle hd, ?_⟩
  intro hne
  obtain ⟨done, stop, shown, hs, hfault, hdone⟩ := stop_of_tokenize_ne hb hle hne
  obtain ⟨c, text, hdrop, hblank, ho⟩ := next_of_split hs
  rw [hfault] at ho
  obtain ⟨sign, digits, hinteger, rfl, hv⟩ := Scan.beginsInteger_of_next hblank ho
  rw [← hdrop] at hinteger
  have hat : IntegerAt wider source (extent done) sign digits :=
    ⟨lexemeStart_withWidth hb hs hdone, hinteger⟩
  refine ⟨_, extent done, sign, digits, ⟨(tokenize_eq_error_iff options source).mpr
    ⟨done, stop, hs, rfl⟩, Fault.location_diagnose _ _ _ _⟩, ?_, ?_, ?_, hat, hv, ?_⟩
  · rw [Cursor.diagnose, hfault]
    rfl
  · rw [Cursor.diagnose, hfault]
    rfl
  · rw [Cursor.diagnose, hfault]
    rfl
  · intro q hq sign digits
    exact fits_of_integerAt hb hs hdone hq

/-- A number in a comment is not read, and each of the two widths stops at another one behind it. -/
theorem withWidth_of_two_literals :
    let byte : Options := { intBits := 8 }
    let word := byte.withWidth 16 (by decide)
    let text := "-128 #200\n-129 70000".toList
    (∃ tokens, tokenize byte "-128".toList = .ok tokens ∧
      tokenize word "-128".toList = .ok tokens) ∧
    ∃ d d' place place', tokenize word text = .error d ∧ tokenize byte text = .error d' ∧
      d.message = "integer literal '70000' out of range" ∧
      d'.message = "integer literal '-129' out of range" ∧
      d.location = some place ∧ d'.location = some place' ∧ place'.place ≤ place.place ∧
      ∃ p sign digits, FailsAt byte text p d' ∧ IntegerAt word text p sign digits ∧
        ¬ Fits 8 (Scan.signedValue sign digits) := by
  intro byte word text
  have hle : byte.intBits ≤ 16 := by decide
  constructor
  · obtain ⟨tokens, h, -⟩ := exists_tokens
      (show (tokenize byte "-128".toList).toOption.map List.length = some 2 by decide +kernel)
    exact ⟨tokens, h, (tokenize_withWidth byte (by decide) hle _).1 tokens h⟩
  · obtain ⟨d, hd, hm⟩ := exists_diagnostic (show (tokenize word text).mapError (·.message) =
      .error "integer literal '70000' out of range" by decide +kernel)
    obtain ⟨d', hd', hm'⟩ := exists_diagnostic (show (tokenize byte text).mapError (·.message) =
      .error "integer literal '-129' out of range" by decide +kernel)
    obtain ⟨-, hfails, hdiffer⟩ := tokenize_withWidth byte (by decide) hle text
    obtain ⟨d'', place, place', hd'', hplace, hplace', horder⟩ := hfails d hd
    obtain rfl := Except.error.inj (hd'.symm.trans hd'')
    have hne : tokenize byte text ≠ tokenize word text := by
      rw [hd, hd']
      intro hsame
      rw [Except.error.inj hsame, hm] at hm'
      exact absurd hm' (by decide)
    obtain ⟨d'', p, sign, digits, hat, -, -, -, hinteger, hv, -⟩ := hdiffer hne
    obtain rfl := Except.error.inj (hd'.symm.trans hat.1)
    exact ⟨d, d', place, place', hd, hd', hm, hm', hplace, hplace', horder, p, sign, digits, hat,
      hinteger, hv⟩

end Tokenize

end Lexing
