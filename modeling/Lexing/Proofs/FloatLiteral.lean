import Lexing.Proofs.IntegerLiteral
import Lexing.Proofs.Nearest

/-!
# Float literals

A float literal of any length is read as the finite number of the 64-bit binary format that is nearest
to the number that its digits denote. It is refused where the largest finite number is too far away.
-/

namespace Lexing

open Numeral (Binary64)
open Numeral (overflowBound)
open Numeral.Binary64 (IsNearest direction)

/-- The number that the digits before and behind a point denote. -/
def decimalValue (sign digits fraction : List Char) : ℚ :=
  (if sign = [] then 1 else -1) * (placeValue digits + placeValue fraction / 10 ^ fraction.length)

/-- A text begins with the sign and the digits of a float literal. -/
structure BeginsFloat (text sign digits fraction : List Char) : Prop where
  isSign : Sign sign
  isDigits : Digits digits
  isFraction : Digits fraction
  ends : ∃ rest, text = sign ++ (digits ++ '.' :: (fraction ++ rest)) ∧ EndsRun isDigit rest.head?

/-- An answer is a float literal of a text and a value. -/
def Answer.IsFloat (answer : Answer) (text : List Char) (value : Binary64) : Prop :=
  ∃ t, answer = .token (some t) ∧ t.kind = .floatLiteral ∧ t.text = text ∧ t.floatValue = some value

section Values

variable {sign : List Char}

theorem decimalValue_eq (sign digits fraction : List Char) :
    decimalValue sign digits fraction = direction (sign != []) *
      (placeValue (digits ++ fraction) * (10 : ℚ) ^ (-(fraction.length : Int))) := by
  have hsign : direction (sign != []) = if sign = [] then 1 else -1 := by
    by_cases h : sign = [] <;> simp [direction, h]
  rw [decimalValue, hsign, placeValue_point]

theorem Sign.bne_nil (h : Sign sign) : (sign != []) = true ↔ sign = ['-'] := by
  rcases h with rfl | rfl <;> simp

/-- The bound from which on no finite number is near enough, as a bound on the digits of a decimal. -/
theorem overflow_iff (sign digits fraction : List Char) :
    overflowBound * 10 ^ fraction.length ≤ placeValue (digits ++ fraction) ↔
      (2 : ℚ) ^ 1024 - 2 ^ 970 ≤ |decimalValue sign digits fraction| := by
  have hcast {a b : Nat} (h : b ≤ a) : ((2 ^ a - 2 ^ b : Nat) : ℚ) = 2 ^ a - 2 ^ b := by
    rw [Nat.cast_sub (Nat.pow_le_pow_right Nat.two_pos h), Nat.cast_pow, Nat.cast_pow, Nat.cast_ofNat]
  have hbound : (overflowBound : ℚ) = 2 ^ 1024 - 2 ^ 970 := hcast (by decide)
  have hten : (0 : ℚ) < 10 ^ fraction.length := pow_pos (by norm_num) _
  rw [decimalValue_eq, abs_mul, Binary64.abs_direction, one_mul, zpow_neg, zpow_natCast,
    ← div_eq_mul_inv, abs_of_nonneg (div_nonneg (Nat.cast_nonneg _) hten.le), ← hbound,
    le_div_iff₀ hten]
  norm_cast

end Values

section Literals

variable {options : Options} {sign digits fraction : List Char}

theorem Scan.floatLiteral_eq (sign digits fraction : List Char) :
    Scan.floatLiteral sign digits fraction =
      (Binary64.ofDecimal? (sign != []) (placeValue (digits ++ fraction))
          (-(fraction.length : Int))).elim
        (.error (.floatOutOfRange (sign ++ digits ++ '.' :: fraction)))
        fun x => .ok { kind := .floatLiteral, text := sign ++ digits ++ '.' :: fraction,
                       floatValue := some x } := by
  rw [Scan.floatLiteral, ofDigitChars_zero]

/-- What the scan of a number answers at a float literal. -/
theorem perform_number_float {cursor : Cursor} (h : BeginsFloat cursor.ahead sign digits fraction) :
    (cursor.perform options .number).1 =
      (Binary64.ofDecimal? (sign != []) (placeValue (digits ++ fraction))
          (-(fraction.length : Int))).elim
        (.failed (cursor.diagnose options (.floatOutOfRange (sign ++ digits ++ '.' :: fraction))))
        fun x => .token (some (cursor.token options cursor.source
          { kind := .floatLiteral, text := sign ++ digits ++ '.' :: fraction,
            floatValue := some x })) := by
  obtain ⟨hs, hd, hf, rest, ht, hr⟩ := h
  have hnumber := Scan.number_float options hs hd hf hr
  rw [← ht, Scan.floatLiteral_eq] at hnumber
  generalize Binary64.ofDecimal? _ _ _ = value? at hnumber ⊢
  cases value? <;> simp only [Cursor.perform, hnumber, Cursor.settle, Scan.map] <;> rfl

/-- A float literal is refused exactly if it denotes a number from the middle between the largest
finite number and the next power of two on. Otherwise its value is the one finite number with its sign
that is nearest to the number it denotes, of two the even one. -/
theorem float_literal_rounded (options : Options) (cursor : Cursor) (sign digits fraction : List Char)
    (h : BeginsFloat cursor.ahead sign digits fraction) :
    let answer := (cursor.perform options .number).1
    let text := sign ++ digits ++ '.' :: fraction
    let q := decimalValue sign digits fraction
    (answer.RefusesNumber ("float literal " ++ quotedNumber text ++ " out of range") ↔
      (2 : ℚ) ^ 1024 - 2 ^ 970 ≤ |q|) ∧
    (|q| < (2 : ℚ) ^ 1024 - 2 ^ 970 → ∃ x : Binary64, answer.IsFloat text x ∧
      ∀ y : Binary64, y = x ↔ (y.negative = true ↔ sign = ['-']) ∧ IsNearest q y) := by
  intro answer text q
  have hanswer : answer = _ := perform_number_float h
  have hoverflow := Binary64.ofDecimal?_eq_none_iff (sign != []) (placeValue (digits ++ fraction))
    fraction.length
  rw [overflow_iff sign] at hoverflow
  cases hvalue : Binary64.ofDecimal? (sign != []) (placeValue (digits ++ fraction))
      (-(fraction.length : Int)) with
  | none =>
    have hlarge := hoverflow.mp hvalue
    rw [hvalue] at hanswer
    refine ⟨iff_of_true ⟨_, hanswer, rfl, ?_⟩ hlarge, fun hsmall => absurd hlarge hsmall.not_ge⟩
    simp only [quotedNumber_eq, String.append_assoc]
    rfl
  | some x =>
    have hsmall := mt hoverflow.mpr (by rw [hvalue]; exact Option.some_ne_none x)
    rw [hvalue] at hanswer
    refine ⟨iff_of_false ?_ hsmall, fun _ => ⟨x, ⟨_, hanswer, rfl, rfl, rfl⟩, fun y => ?_⟩⟩
    · rw [hanswer]
      simp [Answer.RefusesNumber]
    · obtain ⟨hnegative, hnearest⟩ := Binary64.isNearest_ofDecimal? hvalue
      rw [← decimalValue_eq] at hnearest
      have hsign : x.negative = true ↔ sign = ['-'] := by
        rw [hnegative, h.isSign.bne_nil]
      constructor
      · rintro rfl
        exact ⟨hsign, hnearest⟩
      · rintro ⟨hsign', hnearest'⟩
        exact hnearest'.eq hnearest (Bool.eq_iff_iff.mpr (hsign'.trans hsign.symm))

/-- A zero behind a minus sign keeps the sign. -/
theorem float_literal_negative_zero :
    let cursor := Cursor.start "-0.0;".toList
    BeginsFloat cursor.ahead ['-'] ['0'] ['0'] ∧
      |decimalValue ['-'] ['0'] ['0']| < (2 : ℚ) ^ 1024 - 2 ^ 970 ∧
      (cursor.perform { } .number).1.IsFloat "-0.0".toList ⟨true, 0, 0, by decide⟩ := by
  intro cursor
  let zero : Binary64 := ⟨true, 0, 0, by decide⟩
  have hbegins : BeginsFloat cursor.ahead ['-'] ['0'] ['0'] := by
    refine ⟨.inr rfl, by decide, by decide, [';'], rfl, (endsRun_some _ _).mpr rfl⟩
  have hvalue : decimalValue ['-'] ['0'] ['0'] = zero.value := by
    rw [Binary64.value_eq_of_units_eq_zero (Nat.zero_mul _)]
    simp [decimalValue]
  have hsmall : |decimalValue ['-'] ['0'] ['0']| < (2 : ℚ) ^ 1024 - 2 ^ 970 := by
    rw [hvalue, Binary64.value_eq_of_units_eq_zero (Nat.zero_mul _), abs_zero, sub_pos]
    exact pow_lt_pow_right₀ one_lt_two (by decide)
  obtain ⟨-, hliteral⟩ := float_literal_rounded { } cursor _ _ _ hbegins
  obtain ⟨x, hx, hunique⟩ := hliteral hsmall
  have hzero : zero = x := (hunique zero).mpr ⟨by simp [zero], hvalue ▸ zero.isNearest_value⟩
  rw [← hzero] at hx
  exact ⟨hbegins, hsmall, hx⟩

end Literals

end Lexing
