import Lexing.Proofs.Numerals
import Lexing.Scan.Number

/-!
# Digits by their places

The number that decimal digits denote is the sum of the digits, each times the power of ten of its
place. Reading from the left digit by digit comes to this number.
-/

namespace Lexing

/-- The number that digits denote: each counts as often as the power of ten of its place says. -/
def placeValue : List Char → Nat
  | [] => 0
  | d :: more => (d.toNat - '0'.toNat) * 10 ^ more.length + placeValue more

/-- The integer that digits denote behind a minus sign or without one. -/
def signedPlaceValue (sign digits : List Char) : Int :=
  if sign = [] then placeValue digits else -placeValue digits

@[simp] theorem placeValue_nil : placeValue [] = 0 := rfl

@[simp] theorem placeValue_cons (d : Char) (more : List Char) :
    placeValue (d :: more) = (d.toNat - '0'.toNat) * 10 ^ more.length + placeValue more := rfl

theorem placeValue_append (digits more : List Char) :
    placeValue (digits ++ more) = placeValue digits * 10 ^ more.length + placeValue more := by
  induction digits with
  | nil => simp
  | cons d digits ih =>
    simp only [List.cons_append, placeValue_cons, ih, List.length_append, pow_add]
    ring

/-- Digits with a point among them count as if they had none, less the power of ten of its place. -/
theorem placeValue_point (whole fraction : List Char) :
    (placeValue whole : ℚ) + placeValue fraction / 10 ^ fraction.length =
      placeValue (whole ++ fraction) * 10 ^ (-(fraction.length : Int)) := by
  have hten : (10 : ℚ) ^ fraction.length ≠ 0 := pow_ne_zero _ (by norm_num)
  rw [placeValue_append, zpow_neg, zpow_natCast, ← div_eq_mul_inv, Nat.cast_add, Nat.cast_mul,
    Nat.cast_pow, Nat.cast_ofNat, add_div, mul_div_cancel_right₀ _ hten]

theorem placeValue_zeros (n : Nat) : placeValue (List.replicate n '0') = 0 := by
  induction n with
  | zero => rfl
  | succ n ih => simp [List.replicate_succ, ih]

@[simp] theorem placeValue_zeros_append (n : Nat) (digits : List Char) :
    placeValue (List.replicate n '0' ++ digits) = placeValue digits := by
  rw [placeValue_append, placeValue_zeros, Nat.zero_mul, Nat.zero_add]

/-- Zeros behind digits are powers of ten. -/
theorem placeValue_append_zeros (digits : List Char) (n : Nat) (exponent : Int) :
    (placeValue (digits ++ List.replicate n '0') : ℚ) * 10 ^ exponent =
      placeValue digits * 10 ^ (n + exponent) := by
  rw [placeValue_append, placeValue_zeros, List.length_replicate, Nat.add_zero, Nat.cast_mul,
    Nat.cast_pow, Nat.cast_ofNat, mul_assoc, zpow_add₀ (by norm_num), zpow_natCast]

/-- A digit that is read multiplies what has been read before by ten. -/
theorem ofDigitChars_eq (digits : List Char) (n : Nat) :
    Nat.ofDigitChars 10 digits n = n * 10 ^ digits.length + placeValue digits := by
  induction digits generalizing n with
  | nil => simp
  | cons d digits ih =>
    rw [Nat.ofDigitChars_cons, ih, placeValue_cons, List.length_cons, pow_succ]
    ring

theorem ofDigitChars_zero (digits : List Char) :
    Nat.ofDigitChars 10 digits 0 = placeValue digits := by
  simp [ofDigitChars_eq]

theorem signedValue_eq (sign digits : List Char) :
    Scan.signedValue sign digits = signedPlaceValue sign digits := by
  simp [Scan.signedValue, signedPlaceValue, ofDigitChars_zero]

theorem placeValue_naturalText (n : Nat) : placeValue (Numeral.naturalText n) = n := by
  rw [← ofDigitChars_zero]
  exact Nat.ofDigitChars_toDigits (by decide) (by decide)

/-- An integer is printed as digits that denote it, behind a sign if it is negative. -/
theorem exists_integerText (v : Int) : ∃ sign digits, Sign sign ∧ Digits digits ∧
    Numeral.integerText v = sign ++ digits ∧ signedPlaceValue sign digits = v ∧
    digits = Numeral.naturalText v.natAbs := by
  cases v with
  | ofNat n =>
    refine ⟨[], Numeral.naturalText n, .inl rfl, Numeral.digits_naturalText n, rfl, ?_, rfl⟩
    simp [signedPlaceValue, placeValue_naturalText]
  | negSucc n =>
    refine ⟨['-'], Numeral.naturalText (n + 1), .inr rfl, Numeral.digits_naturalText _, rfl, ?_, rfl⟩
    simp [signedPlaceValue, placeValue_naturalText, Int.negSucc_eq]

/-- The text of an integer that no digit follows ends at one place and stands for one integer. -/
theorem integerText_unique {v v' : Int} {rest rest' : List Char} (hr : EndsRun isDigit rest.head?)
    (hr' : EndsRun isDigit rest'.head?)
    (he : Numeral.integerText v ++ rest = Numeral.integerText v' ++ rest') : v = v' ∧ rest = rest' := by
  obtain ⟨sign, digits, hs, hd, htext, hv, -⟩ := exists_integerText v
  obtain ⟨sign', digits', hs', hd', htext', hv', -⟩ := exists_integerText v'
  rw [htext, htext'] at he
  obtain ⟨rfl, rfl, hrest⟩ := number_unique hs hd hr hs' hd' hr' he
  exact ⟨hv.symm.trans hv', hrest⟩

theorem not_mem_integerText {c : Char} (hc : isDigit c = false) (hm : c ≠ '-') (v : Int) :
    c ∉ Numeral.integerText v := by
  obtain ⟨sign, digits, hs, hd, htext, -, -⟩ := exists_integerText v
  rw [htext, List.mem_append, not_or]
  exact ⟨hs.not_mem hm, hd.not_mem hc⟩

end Lexing
