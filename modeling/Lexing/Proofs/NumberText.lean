import Lexing.Proofs.Document
import Lexing.Proofs.Nearest

/-!
# Numbers as they are written

The text of an integer denotes the integer itself. The text of a finite number of the 64-bit binary format
denotes a rational number to which it is the nearest of its format, so that the number is read back.
-/

namespace Lexing

open Numeral (Binary64 Decimal naturalText integerText)
open Document (NumberText Fraction Exponent)

/-- A text that denotes a number behind a minus sign as well as without one. -/
def Magnitude (text : List Char) (q : ℚ) : Prop :=
  ∀ sign, Sign sign → NumberText (sign ++ text) (sign != []) ((if sign = [] then 1 else -1) * q)

/-- Digits that do not begin with a zero. -/
structure Significant (digits : List Char) : Prop where
  isDigits : Digits digits
  head : digits.head? ≠ some '0'

section Digits

theorem Digits.append {digits more : List Char} (hd : Digits digits) (hm : ∀ d ∈ more, Digit d) :
    Digits (digits ++ more) :=
  ⟨List.append_ne_nil_of_left_ne_nil hd.1 _, fun d h => (List.mem_append.mp h).elim (hd.2 d) (hm d)⟩

theorem digit_zeros (n : Nat) : ∀ d ∈ List.replicate n '0', Digit d := by
  intro d hd
  rw [List.eq_of_mem_replicate hd]
  decide

/-- The digits of a number do not begin with a zero unless they are that of zero. -/
theorem naturalText_head {n : Nat} (h : n ≠ 0) : (naturalText n).head? ≠ some '0' := by
  induction n using Nat.strong_induction_on with
  | _ n ih =>
    rw [naturalText, Nat.toDigits_eq_if (by decide)]
    split
    · rename_i hsmall
      have hall : ∀ n < 10, n ≠ 0 → Nat.digitChar n ≠ '0' := by decide
      simpa using hall n hsmall h
    · rename_i hlarge
      have hfront := ih (n / 10) (by omega) (by omega)
      rw [List.head?_append_of_ne_nil _ Nat.toDigits_ne_nil]
      exact hfront

theorem significant_naturalText {n : Nat} (h : n ≠ 0) : Significant (naturalText n) :=
  ⟨Numeral.digits_naturalText n, naturalText_head h⟩

/-- The zeros at the end of the digits of a number can be left out. -/
theorem exists_significant {n : Nat} (h : n ≠ 0) : ∃ digits zeros, Significant digits ∧
    ((naturalText n).reverse.dropWhile (· == '0')).reverse = digits ∧
    (naturalText n).length = digits.length + zeros ∧ n = placeValue digits * 10 ^ zeros := by
  let back := (naturalText n).reverse.takeWhile (· == '0')
  let digits := ((naturalText n).reverse.dropWhile (· == '0')).reverse
  have hback : back = List.replicate back.length '0' :=
    List.eq_replicate_iff.mpr ⟨rfl, fun c hc => by simpa using List.mem_takeWhile_imp hc⟩
  have hsplit : naturalText n = digits ++ List.replicate back.length '0' := by
    rw [← List.reverse_replicate, ← hback, ← List.reverse_append, List.takeWhile_append_dropWhile,
      List.reverse_reverse]
  obtain ⟨hdigits, hhead⟩ := significant_naturalText h
  have hne : digits ≠ [] := by
    intro hempty
    rw [hempty, List.nil_append] at hsplit
    rw [hsplit, List.head?_replicate] at hhead
    apply hdigits.1
    rw [hsplit, List.replicate_eq_nil_iff]
    simpa using hhead
  refine ⟨digits, back.length, ⟨⟨hne, ?_⟩, ?_⟩, rfl, ?_, ?_⟩
  · intro d hd
    exact hdigits.2 d (hsplit ▸ List.mem_append_left _ hd)
  · rwa [hsplit, List.head?_append_of_ne_nil _ hne] at hhead
  · rw [hsplit, List.length_append, List.length_replicate]
  · rw [← placeValue_naturalText n, hsplit, placeValue_append, placeValue_zeros,
      List.length_replicate, Nat.add_zero]

end Digits

section Texts

variable {digits : List Char}

/-- A number with a point denotes its digits, less the power of ten of the place of the point. -/
theorem magnitude_point {whole fraction : List Char} {q : ℚ} (hw : Digits whole)
    (hz : whole.head? = some '0' → whole = ['0']) (hf : Digits fraction)
    (hq : placeValue (whole ++ fraction) * 10 ^ (-(fraction.length : Int)) = q) :
    Magnitude (whole ++ '.' :: fraction) q := by
  intro sign hs
  have htext := NumberText.decimal hs hw hz (.some hf) .none
  rwa [List.append_nil, zpow_zero, mul_one, placeValue_point, hq] at htext

/-- The point stands in front of all digits. -/
theorem Significant.magnitude_front (h : Significant digits) (zeros : Nat) :
    Magnitude ('0' :: '.' :: (List.replicate zeros '0' ++ digits))
      (placeValue digits * 10 ^ (-(zeros + digits.length : Int))) := by
  have hfraction : Digits (List.replicate zeros '0' ++ digits) :=
    ⟨List.append_ne_nil_of_right_ne_nil _ h.isDigits.1, fun d hd =>
      (List.mem_append.mp hd).elim (digit_zeros _ d) (h.isDigits.2 d)⟩
  apply magnitude_point (show Digits ['0'] by decide) (fun _ => rfl) hfraction
  rw [show ['0'] = List.replicate 1 '0' from rfl, placeValue_zeros_append, placeValue_zeros_append,
    List.length_append, List.length_replicate, Nat.cast_add]

/-- The point stands behind all digits. -/
theorem Significant.magnitude_back (h : Significant digits) (zeros : Nat) :
    Magnitude (digits ++ List.replicate zeros '0' ++ ['.', '0'])
      (placeValue digits * 10 ^ (zeros : Int)) := by
  apply magnitude_point (h.isDigits.append (digit_zeros zeros)) _ (show Digits ['0'] by decide)
  · rw [show ['0'] = List.replicate 1 '0' from rfl, List.append_assoc, List.replicate_append_replicate,
      placeValue_append_zeros, List.length_replicate]
    norm_num
  · rw [List.head?_append_of_ne_nil _ h.isDigits.1]
    exact fun hhead => absurd hhead h.head

/-- The point stands between digits. -/
theorem Significant.magnitude_among (h : Significant digits) {n : Nat} (hn : 0 < n)
    (hl : n < digits.length) : Magnitude (digits.take n ++ '.' :: digits.drop n)
      (placeValue digits * 10 ^ ((n : Int) - digits.length)) := by
  have hfront : Digits (digits.take n) :=
    ⟨by simp [h.isDigits.1, hn.ne'], fun d hd => h.isDigits.2 d (List.mem_of_mem_take hd)⟩
  have hback : Digits (digits.drop n) :=
    ⟨by simp [hl], fun d hd => h.isDigits.2 d (List.mem_of_mem_drop hd)⟩
  apply magnitude_point hfront _ hback
  · rw [List.take_append_drop, List.length_drop, Nat.cast_sub hl.le, neg_sub]
  · rw [List.head?_take, if_neg hn.ne']
    exact fun hhead => absurd hhead h.head

theorem Significant.magnitude_positional (h : Significant digits) (point : Int) :
    Magnitude (Binary64.positional digits point)
      (placeValue digits * 10 ^ (point - digits.length)) := by
  simp only [Binary64.positional]
  split
  · have hplace : point - digits.length = -((-point).toNat + digits.length : Int) := by omega
    rw [hplace]
    exact h.magnitude_front _
  · split
    · rename_i hlength
      have hplace : point - digits.length = ((point.toNat - digits.length : Nat) : Int) := by omega
      rw [hplace]
      exact h.magnitude_back _
    · rename_i hpoint hlength
      have hplace : point = point.toNat := by omega
      rw [hplace, Int.toNat_natCast]
      exact h.magnitude_among (by omega) (by omega)

theorem exponent_exponentText (exponent : Int) :
    Exponent ('e' :: Binary64.exponentText exponent) exponent := by
  let digits := (Nat.toDigits 10 exponent.natAbs).leftpad 2 '0'
  have hdigits : Digits digits :=
    ⟨List.append_ne_nil_of_right_ne_nil _ Nat.toDigits_ne_nil, fun d hd =>
      (List.mem_append.mp hd).elim (digit_zeros _ d) ((Numeral.digits_naturalText _).2 d)⟩
  have hvalue : placeValue digits = exponent.natAbs :=
    (placeValue_zeros_append _ _).trans (placeValue_naturalText _)
  by_cases hsign : exponent < 0
  · have htext := Exponent.some (.inl rfl : 'e' = 'e' ∨ _) (.inr (.inr rfl)) hdigits
    rw [if_pos rfl, hvalue, show -(exponent.natAbs : Int) = exponent by omega] at htext
    rwa [Binary64.exponentText, if_pos hsign]
  · have htext := Exponent.some (.inl rfl : 'e' = 'e' ∨ _) (.inr (.inl rfl)) hdigits
    rw [if_neg (by decide), hvalue, show (exponent.natAbs : Int) = exponent by omega] at htext
    rwa [Binary64.exponentText, if_neg hsign]

theorem Significant.magnitude_scientific (h : Significant digits) (point : Int) :
    Magnitude (Binary64.scientific digits (point - 1))
      (placeValue digits * 10 ^ (point - digits.length)) := by
  have hpower := exponent_exponentText (point - 1)
  obtain ⟨⟨hne, hdigits⟩, hhead⟩ := h
  intro sign hs
  match digits with
  | [] => exact absurd rfl hne
  | [d] =>
    have htext := NumberText.decimal hs ⟨hne, hdigits⟩ (fun hz => absurd hz hhead) .none hpower
    simpa [Binary64.scientific, mul_assoc] using htext
  | d :: e :: more =>
    have hwhole : Digits [d] := ⟨by simp, by simpa using hdigits d List.mem_cons_self⟩
    have hmore : Digits (e :: more) := ⟨by simp, fun c hc => hdigits c (List.mem_cons_of_mem _ hc)⟩
    have htext := NumberText.decimal hs hwhole (fun hz => absurd hz hhead) (.some hmore) hpower
    have hplace : -((e :: more).length : Int) + (point - 1) = point - (d :: e :: more).length := by
      simp only [List.length_cons]
      omega
    rw [placeValue_point, mul_assoc, mul_assoc, ← zpow_add₀ (by norm_num), hplace] at htext
    exact htext

theorem magnitude_layOut {d : Decimal} (h : d.digits ≠ 0) :
    Magnitude (Binary64.layOut d) (d.digits * 10 ^ d.exponent) := by
  obtain ⟨digits, zeros, hsignificant, htext, hlength, hvalue⟩ := exists_significant h
  have hplace (point : Int) (hp : point = (naturalText d.digits).length + d.exponent) :
      (d.digits : ℚ) * 10 ^ d.exponent = placeValue digits * 10 ^ (point - digits.length) := by
    have hpower : point - digits.length = zeros + d.exponent := by omega
    rw [hpower, zpow_add₀ (by norm_num), zpow_natCast, ← mul_assoc]
    congr 1
    exact_mod_cast hvalue
  unfold naturalText at htext hplace
  simp only [Binary64.layOut, htext]
  split
  · rw [hplace _ rfl]
    exact hsignificant.magnitude_positional _
  · rw [hplace _ rfl]
    exact hsignificant.magnitude_scientific _

end Texts

section Numbers

theorem magnitude_naturalText (n : Nat) : Magnitude (naturalText n) n := by
  intro sign hs
  have hzero : (naturalText n).head? = some '0' → naturalText n = ['0'] := by
    intro hhead
    by_cases hn : n = 0
    · rw [hn]
      rfl
    · exact absurd hhead (naturalText_head hn)
  have htext := NumberText.decimal hs (Numeral.digits_naturalText n) hzero .none .none
  simpa [placeValue_naturalText] using htext

/-- An integer is written as the number that it is. -/
theorem numberText_integerText (v : Int) : NumberText (integerText v) (decide (v < 0)) v := by
  cases v with
  | ofNat n =>
    have htext := magnitude_naturalText n [] (.inl rfl)
    have hvalue : ((if ([] : List Char) = [] then 1 else -1) * n : ℚ) = (Int.ofNat n : Int) := by
      rw [if_pos rfl, one_mul, Int.ofNat_eq_natCast, Int.cast_natCast]
    rw [hvalue] at htext
    exact htext
  | negSucc n =>
    have htext := magnitude_naturalText (n + 1) ['-'] (.inr rfl)
    have hvalue : ((if ['-'] = [] then 1 else -1) * (n + 1 : Nat) : ℚ) = (Int.negSucc n : Int) := by
      rw [if_neg (by decide), Int.cast_negSucc, neg_one_mul]
    rw [hvalue] at htext
    rw [decide_eq_true (Int.negSucc_lt_zero n)]
    exact htext

/-- The sign is only a label of the number that a ratio is rounded to. -/
theorem ofRatio?_sign (negative : Bool) (num den : Nat) : Binary64.ofRatio? negative num den =
    (Binary64.ofRatio? false num den).map fun x => { x with negative } := by
  have hpair (significand scale : Nat) : Binary64.ofPair? negative significand scale =
      (Binary64.ofPair? false significand scale).map fun x => { x with negative } := by
    unfold Binary64.ofPair?
    split <;> rfl
  unfold Binary64.ofRatio?
  generalize num * Numeral.twoPow Numeral.unitScale = num
  simp only [Binary64.ofUnits?]
  split
  · exact hpair _ _
  · exact hpair _ _

/-- A decimal that reads back as the magnitude of a number is rounded to that number. -/
theorem ofDecimal?_of_readsBack {x : Binary64} {d : Decimal} (h : x.readsBack d = true) :
    Binary64.ofDecimal? x.negative d.digits d.exponent = some x := by
  have hsign : Binary64.ofDecimal? x.negative d.digits d.exponent =
      (Binary64.ofDecimal? false d.digits d.exponent).map fun y => { y with negative := x.negative } :=
    ofRatio?_sign x.negative _ _
  rw [Binary64.readsBack, Option.any_eq_true] at h
  obtain ⟨y, hy, hsame⟩ := h
  simp only [Bool.and_eq_true, beq_iff_eq] at hsame
  have hunits : Binary64.units { y with negative := x.negative } = x.units := by
    simp only [Binary64.units, hsame]
  rw [hsign, hy, Option.map_some, Option.some_inj]
  exact Binary64.eq_of_units_eq rfl hunits

theorem value_exactDecimal (x : Binary64) :
    Binary64.direction x.negative * (x.exactDecimal.digits * 10 ^ x.exactDecimal.exponent) =
      x.value := by
  have hten (n : Nat) (units : ℚ) : units * 5 ^ n * 10 ^ (-(n : Int)) = units / 2 ^ n := by
    rw [zpow_neg, zpow_natCast, show (10 : ℚ) = 2 * 5 by norm_num, mul_pow]
    field_simp
  rw [Binary64.value, mul_div_assoc, ← hten]
  simp only [Binary64.exactDecimal, Nat.pow_eq, Nat.cast_mul, Nat.cast_pow, Nat.cast_ofNat]

/-- The number that the text of a finite number denotes. -/
def shownValue (x : Binary64) : ℚ :=
  Binary64.direction x.negative * (x.shortest.digits * 10 ^ x.shortest.exponent)

/-- A finite number is the nearest one to the number that it is written as. -/
theorem isNearest_shownValue (x : Binary64) : Binary64.IsNearest (shownValue x) x := by
  unfold shownValue Binary64.shortest
  split
  · rename_i hzero
    have hunits : x.units = 0 := by rw [Binary64.units, hzero, Nat.zero_mul]
    have hvalue := Binary64.value_eq_of_units_eq_zero hunits
    rw [Nat.cast_zero, zero_mul, mul_zero, ← hvalue]
    exact x.isNearest_value
  · dsimp only
    cases hfound : List.find? x.readsBack _ with
    | none =>
      rw [Option.getD_none, value_exactDecimal]
      exact x.isNearest_value
    | some d =>
      exact (Binary64.isNearest_ofDecimal? (ofDecimal?_of_readsBack (List.find?_some hfound))).2

/-- Only zeros are written with the digits of zero. -/
theorem shortest_digits_ne_zero {x : Binary64} (h : x.significand ≠ 0) : x.shortest.digits ≠ 0 := by
  intro hdigits
  let zero : Binary64 := ⟨x.negative, 0, 0, by decide⟩
  have hvalue : zero.value = 0 := Binary64.value_eq_of_units_eq_zero (Nat.zero_mul _)
  have hnearest := isNearest_shownValue x
  rw [shownValue, hdigits, Nat.cast_zero, zero_mul, mul_zero, ← hvalue] at hnearest
  have heq : x = zero := hnearest.eq zero.isNearest_value rfl
  exact h (congrArg Binary64.significand heq)

theorem magnitude_shortest (x : Binary64) : Magnitude (Binary64.layOut x.shortest)
    (x.shortest.digits * 10 ^ x.shortest.exponent) := by
  by_cases h : x.significand = 0
  · have hshortest : x.shortest = ⟨0, 0⟩ := if_pos h
    have hzero : Magnitude (['0'] ++ '.' :: ['0']) 0 :=
      magnitude_point (by decide) (fun _ => rfl) (by decide) (by simp)
    rw [hshortest, Nat.cast_zero, zero_mul]
    exact hzero
  · exact magnitude_layOut (shortest_digits_ne_zero h)

theorem numberText_text (x : Binary64) : NumberText x.text x.negative (shownValue x) := by
  have htext := magnitude_shortest x
  cases hnegative : x.negative with
  | false =>
    have hplain : NumberText (Binary64.layOut x.shortest) false _ := htext [] (.inl rfl)
    simpa [Binary64.text, shownValue, hnegative, Binary64.direction] using hplain
  | true =>
    have hsigned : NumberText ('-' :: Binary64.layOut x.shortest) true _ := htext ['-'] (.inr rfl)
    simpa [Binary64.text, shownValue, hnegative, Binary64.direction] using hsigned

end Numbers

end Lexing
