import Lexing.Proofs.PlaceValue
import Lexing.Proofs.Steps
import Lexing.Proofs.Terminators
import Lexing.Proofs.Width

/-!
# Integer literals

The digits of an integer literal are read as exactly the number that they denote, or refused, by their
count or by the range of integers. What an integer of the range is printed as is one such literal.
-/

namespace Lexing

section Texts

theorem Digits.oneLine {digits : List Char} (h : Digits digits) : OneLine digits := by
  intro d hd
  have hdigit := h.forall_isDigit d hd
  constructor
  · exact Scan.ne_of_isDigit hdigit (by decide)
  · exact Scan.ne_of_isDigit hdigit (by decide)

theorem Sign.oneLine {sign : List Char} (h : Sign sign) : OneLine sign := by
  rcases h with rfl | rfl <;> simp [OneLine]

/-- On the one line of a text the columns count the characters. -/
theorem position_oneLine (loneCr : Bool) {text : List Char} (h : OneLine text) {n : Nat}
    (hn : n ≤ text.length) : (cursorAt loneCr text n).position = ⟨n, 1, n + 1⟩ := by
  rw [position_cursorAt hn]
  simp [lineNumber, columnNumber, lineStart, lineEnds_of_oneLine h]

/-- An integer of the widest range has fewer digits than a numeral may have. -/
theorem length_naturalText_of_fits {bits : Nat} (hb : bits ≤ maxIntBits) {v : Int}
    (h : Fits bits v) : (Numeral.naturalText v.natAbs).length ≤ Numeral.digitLimit := by
  obtain ⟨hmin, hmax⟩ := h.mono hb
  have hpow : (2 : Nat) ^ (maxIntBits - 1) < 10 ^ Numeral.digitLimit := by
    calc (2 : Nat) ^ (maxIntBits - 1) < 10 ^ (maxIntBits - 1) :=
          Nat.pow_lt_pow_left (by decide) (by decide)
      _ ≤ 10 ^ Numeral.digitLimit := Nat.pow_le_pow_right (by decide) (by decide)
  apply (Nat.length_toDigits_le_iff (by decide) (by decide)).mpr
  have hcast (n : Nat) : ((2 ^ n : Nat) : Int) = 2 ^ n := by simp
  have hbound := hcast (maxIntBits - 1)
  omega

end Texts

section Literals

variable {options : Options} {sign digits : List Char}

/-- What the scan of a number answers at an integer literal. -/
theorem perform_number {cursor : Cursor} (h : BeginsInteger cursor.ahead sign digits) :
    (cursor.perform options .number).1 =
      if Numeral.digitLimit < digits.length then
        .failed (cursor.diagnose options (.malformedInteger (sign ++ digits)))
      else if Fits options.intBits (signedPlaceValue sign digits) then
        .token (some (cursor.token options cursor.source
          { kind := .intLiteral, text := sign ++ digits,
            intValue := some (signedPlaceValue sign digits) }))
      else .failed (cursor.diagnose options (.integerOutOfRange (sign ++ digits))) := by
  obtain ⟨hs, hd, rest, ht, hr, hp⟩ := h
  simp only [Cursor.perform, ht, Scan.number_integer options hs hd hr hp, Cursor.settle, Scan.map,
    Scan.intLiteral_eq options sign hd.1, options.fits_iff, signedValue_eq]
  split_ifs <;> rfl

/-- How a message shows a number: quoted, and cut behind its first twenty characters. -/
def quotedNumber (text : List Char) : String :=
  "'" ++ String.ofList (text.take 20) ++ if text.length ≤ 20 then "'" else "...'"

/-- An answer refuses a number with a message. -/
def Answer.RefusesNumber (answer : Answer) (message : String) : Prop :=
  ∃ d, answer = .failed d ∧ d.kind = .malformedNumber ∧ d.message = message

/-- An answer is an integer literal of a text and a value. -/
def Answer.IsInteger (answer : Answer) (text : List Char) (value : Int) : Prop :=
  ∃ t, answer = .token (some t) ∧ t.kind = .intLiteral ∧ t.text = text ∧ t.intValue = some value

theorem quotedNumber_eq (text : List Char) :
    quotedNumber text = "'" ++ Fault.shownNumber text ++ "'" := by
  simp only [Fault.shownNumber, quotedNumber]
  split
  · rename_i hshort
    rw [List.take_of_length_le hshort]
  · simp only [String.append_assoc]
    rfl

/-- An integer that the range holds is printed as one literal. -/
theorem tokenize_integerText {v : Int} (h : Fits options.intBits v) :
    tokenize options (Numeral.integerText v) = .ok
      [{ kind := .intLiteral
         text := Numeral.integerText v
         intValue := some v
         line := 1
         column := 1
         offset := 0
         filename := options.filename
         source := Numeral.integerText v },
       { kind := .endOfInput
         text := []
         line := 1
         column := (Numeral.integerText v).length + 1
         offset := (Numeral.integerText v).length
         filename := options.filename
         source := Numeral.integerText v }] := by
  obtain ⟨sign, digits, hs, hd, htext, hvalue, hdigits⟩ := exists_integerText v
  have hlength := length_naturalText_of_fits options.intBits_mem.2 h
  rw [← hdigits] at hlength
  have hliteral : Scan.intLiteral options sign digits =
      .ok { kind := .intLiteral, text := sign ++ digits, intValue := some v } := by
    rw [Scan.intLiteral_eq options sign hd.1, if_neg hlength.not_gt, signedValue_eq, hvalue,
      if_pos ((options.fits_iff v).mp h)]
  have hone : OneLine (Numeral.integerText v) := by
    rw [htext]
    intro c hc
    exact (List.mem_append.mp hc).elim (hs.oneLine c) (hd.oneLine c)
  have hreads : Reads options { kind := .intLiteral, text := sign ++ digits, intValue := some v }
      ([] : List Char).head? := .integer hs hd hliteral (endsRun_none _) (by simp)
  have hsplit := Split.ofText_reads hreads
  rw [List.append_nil, ← htext, Split.ofText_nil] at hsplit
  have hplace := position_oneLine options.loneCr hone (Nat.le_refl _)
  apply (tokenize_eq_ok_iff options _).mpr
  refine ⟨_, hsplit, ?_⟩
  rw [layOut_lexeme, layOut_nil, Nat.zero_add]
  simp only [endToken, Cursor.token, hplace]
  rfl

/-- An integer literal has exactly the value that its digits denote, if they are not too many and the
range holds it, and is refused otherwise; and what an integer of the range is printed as is one literal
with that value. -/
theorem integer_literal_exact (options : Options) :
    (∀ cursor : Cursor, ∀ sign digits, BeginsInteger cursor.ahead sign digits →
      let answer := (cursor.perform options .number).1
      let value := signedPlaceValue sign digits
      (answer.IsInteger (sign ++ digits) value ↔
        digits.length ≤ 4300 ∧ Fits options.intBits value) ∧
      (4300 < digits.length → answer.RefusesNumber
        ("malformed integer literal " ++ quotedNumber (sign ++ digits))) ∧
      (digits.length ≤ 4300 → ¬ Fits options.intBits value → answer.RefusesNumber
        ("integer literal " ++ quotedNumber (sign ++ digits) ++ " out of range"))) ∧
    ∀ v, Fits options.intBits v → tokenize options (Numeral.integerText v) = .ok
      [{ kind := .intLiteral
         text := Numeral.integerText v
         intValue := some v
         line := 1
         column := 1
         offset := 0
         filename := options.filename
         source := Numeral.integerText v },
       { kind := .endOfInput
         text := []
         line := 1
         column := (Numeral.integerText v).length + 1
         offset := (Numeral.integerText v).length
         filename := options.filename
         source := Numeral.integerText v }] := by
  refine ⟨?_, fun v hv => tokenize_integerText hv⟩
  intro cursor sign digits h answer value
  have hanswer : answer = _ := perform_number h
  by_cases hcount : 4300 < digits.length
  · have hrefused : answer = _ := hanswer.trans (if_pos hcount)
    refine ⟨?_, fun _ => ?_, fun hfew => absurd hcount hfew.not_gt⟩
    · apply iff_of_false
      · rw [hrefused]
        simp [Answer.IsInteger]
      · exact fun hfew => hcount.not_ge hfew.1
    · refine ⟨_, hrefused, rfl, ?_⟩
      rw [quotedNumber_eq, ← String.append_assoc, ← String.append_assoc]
      rfl
  · have hfew : digits.length ≤ 4300 := not_lt.mp hcount
    have hanswer : answer = _ := hanswer.trans (if_neg hcount)
    by_cases hrange : Fits options.intBits value
    · have htoken : answer = _ := hanswer.trans (if_pos hrange)
      refine ⟨?_, fun hmany => absurd hmany hcount, fun _ hout => absurd hrange hout⟩
      apply iff_of_true
      · exact ⟨_, htoken, rfl, rfl, rfl⟩
      · exact ⟨hfew, hrange⟩
    · have hrefused : answer = _ := hanswer.trans (if_neg hrange)
      refine ⟨?_, fun hmany => absurd hmany hcount, fun _ _ => ?_⟩
      · apply iff_of_false
        · rw [hrefused]
          simp [Answer.IsInteger]
        · exact fun h => hrange h.2
      · refine ⟨_, hrefused, rfl, ?_⟩
        simp only [quotedNumber_eq, String.append_assoc]
        rfl

/-- The range of eight bits is not symmetric: the sign decides whether 128 is one of its integers. -/
theorem integer_literal_eight_bits :
    let options : Options := { intBits := 8 }
    let negative := Cursor.start "-0128,".toList
    let positive := Cursor.start "128".toList
    BeginsInteger negative.ahead ['-'] ['0', '1', '2', '8'] ∧
      BeginsInteger positive.ahead [] ['1', '2', '8'] ∧
      (negative.perform options .number).1.IsInteger "-0128".toList (-128) ∧
      (positive.perform options .number).1.RefusesNumber "integer literal '128' out of range" ∧
      Fits 8 (-128) ∧
      (tokenize options "-128".toList).toOption.map (·.map (·.intValue)) =
        some [some (-128), none] := by
  intro options negative positive
  have hnegative : BeginsInteger negative.ahead ['-'] ['0', '1', '2', '8'] := by
    refine ⟨.inr rfl, by decide, [','], rfl, (endsRun_some _ _).mpr rfl, by decide⟩
  have hpositive : BeginsInteger positive.ahead [] ['1', '2', '8'] := by
    refine ⟨.inl rfl, by decide, [], rfl, endsRun_none _, by decide⟩
  have hfits : Fits 8 (-128) := by decide
  obtain ⟨hliteral, hprinted⟩ := integer_literal_exact options
  refine ⟨hnegative, hpositive, ?_, ?_, hfits, ?_⟩
  · exact (hliteral negative _ _ hnegative).1.mpr ⟨by decide, hfits⟩
  · exact (hliteral positive _ _ hpositive).2.2 (by decide) (by decide)
  · rw [show "-128".toList = Numeral.integerText (-128) by decide, hprinted _ hfits]
    rfl

end Literals

end Lexing
