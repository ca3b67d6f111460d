import Lexing.Proofs.Rounding

/-!
# Nearest numbers

A finite number of the 64-bit binary format is a rational number. Rounding a ratio gives the one of
these numbers that is nearest to it, and of two that are equally near the one with the even
significand.
-/

namespace Lexing.Numeral.Binary64

/-- Minus one for the numbers with a sign, one for those without. -/
def direction (negative : Bool) : ℚ :=
  if negative then -1 else 1

/-- The rational number that a finite number is. -/
def value (x : Binary64) : ℚ :=
  direction x.negative * x.units / 2 ^ unitScale

/-- No number is nearer, and one that is equally near is only passed over for an even significand. -/
structure IsNearest (q : ℚ) (x : Binary64) : Prop where
  nearest : ∀ y : Binary64, |x.value - q| ≤ |y.value - q|
  even : ∀ y : Binary64, y.value ≠ x.value → |y.value - q| = |x.value - q| → Even x.significand

section Values

theorem direction_mul_self (negative : Bool) : direction negative * direction negative = 1 := by
  cases negative <;> norm_num [direction]

theorem direction_not (negative : Bool) : direction (!negative) = -direction negative := by
  cases negative <;> norm_num [direction]

theorem direction_ne_zero (negative : Bool) : direction negative ≠ 0 := by
  cases negative <;> norm_num [direction]

theorem abs_direction (negative : Bool) : |direction negative| = 1 := by
  cases negative <;> norm_num [direction]

theorem value_eq_of_units_eq_zero {x : Binary64} (h : x.units = 0) : x.value = 0 := by
  simp [value, h]

/-- The distance to a number is measured in units on the side of its sign. -/
theorem abs_value_sub (x : Binary64) (q : ℚ) :
    |x.value - q| = |(x.units : ℚ) - direction x.negative * q * 2 ^ unitScale| / 2 ^ unitScale := by
  have hunit : (0 : ℚ) < 2 ^ unitScale := pow_pos two_pos _
  have hscaled : x.value - q = direction x.negative *
      ((x.units : ℚ) - direction x.negative * q * 2 ^ unitScale) / 2 ^ unitScale := by
    have hself := direction_mul_self x.negative
    rw [value, eq_div_iff hunit.ne', sub_mul, div_mul_cancel₀ _ hunit.ne']
    linear_combination (q * 2 ^ unitScale) * hself
  rw [hscaled, abs_div, abs_mul, abs_direction, one_mul, abs_of_pos hunit]

end Values

section Grid

variable {x y : Binary64}

theorem units_lt_of_scale_lt {scale : Nat} (h : x.scale < scale) : x.units < 2 ^ 52 * 2 ^ scale := by
  calc x.units < 2 ^ 53 * 2 ^ x.scale :=
        Nat.mul_lt_mul_of_pos_right x.canonical.1 (Nat.pow_pos (by decide))
    _ = 2 ^ 52 * 2 ^ (x.scale + 1) := by ring
    _ ≤ 2 ^ 52 * 2 ^ scale := Nat.mul_le_mul_left _ (Nat.pow_le_pow_right (by decide) h)

theorem units_lt_units (h : x.scale < y.scale) : x.units < y.units := by
  have hy : 2 ^ 52 ≤ y.significand := y.canonical.2.2.resolve_left (Nat.ne_zero_of_lt h)
  calc x.units < 2 ^ 52 * 2 ^ y.scale := units_lt_of_scale_lt h
    _ ≤ y.units := Nat.mul_le_mul_right _ hy

/-- The units of a number are a multiple of every power of two up to its scale. -/
theorem exists_units_eq {scale : Nat} (h : scale ≤ x.scale) : ∃ m, x.units = m * 2 ^ scale := by
  refine ⟨x.significand * 2 ^ (x.scale - scale), ?_⟩
  rw [units, twoPow_eq, Nat.mul_assoc, ← pow_add, Nat.sub_add_cancel h]

theorem eq_of_units_eq (hs : x.negative = y.negative) (h : x.units = y.units) : x = y := by
  have hscale : x.scale = y.scale := by
    rcases Nat.lt_trichotomy x.scale y.scale with hlt | heq | hgt
    · exact absurd h (units_lt_units hlt).ne
    · exact heq
    · exact absurd h (units_lt_units hgt).ne'
  have hsignificand : x.significand = y.significand := by
    rw [units, units, hscale] at h
    exact Nat.eq_of_mul_eq_mul_right (Nat.pow_pos (by decide)) h
  cases x
  cases y
  simp_all

/-- The next number above lies one step of the scale away. -/
theorem add_step_le_units (h : x.units < y.units) : x.units + 2 ^ x.scale ≤ y.units := by
  have hscale : x.scale ≤ y.scale := by
    by_contra hgt
    exact absurd h (units_lt_units (not_le.mp hgt)).not_gt
  obtain ⟨m, hm⟩ := exists_units_eq hscale
  have hx : x.units = x.significand * 2 ^ x.scale := rfl
  rw [hm, hx] at h ⊢
  have hlt := Nat.lt_of_mul_lt_mul_right h
  calc x.significand * 2 ^ x.scale + 2 ^ x.scale = (x.significand + 1) * 2 ^ x.scale := by ring
    _ ≤ m * 2 ^ x.scale := Nat.mul_le_mul_right _ hlt

end Grid

section Rounding

variable {den : Nat}

/-- What an integer that is rounded to misses of the ratio, in halves of the denominator. -/
theorem abs_roundHalfEven_sub (num : Nat) (hd : 0 < den) :
    ∃ missed : Nat, |(roundHalfEven num den : ℚ) - num / den| = missed / den / 2 ∧ missed ≤ den ∧
      (missed = den → Even (roundHalfEven num den)) := by
  have hden : (0 : ℚ) < den := by exact_mod_cast hd
  have hmod := Nat.mod_lt num hd
  have hnum : (num : ℚ) / den = (num / den : Nat) + (num % den : Nat) / den := by
    rw [div_eq_iff hden.ne', add_mul, div_mul_cancel₀ _ hden.ne']
    exact_mod_cast (Nat.div_add_mod' num den).symm
  rw [hnum, Nat.even_iff]
  simp only [roundHalfEven]
  split_ifs with hdown
  · refine ⟨2 * (num % den), ?_, by omega, by omega⟩
    rw [sub_add_cancel_left, abs_neg, abs_of_nonneg (by positivity)]
    push_cast
    ring
  · refine ⟨2 * (den - num % den), ?_, by omega, by omega⟩
    have hrest : (num % den : Nat) / (den : ℚ) ≤ 1 := by
      rw [div_le_one hden]
      exact_mod_cast hmod.le
    rw [Nat.cast_mul, Nat.cast_sub hmod.le, Nat.cast_add_one, add_sub_add_left_eq_sub,
      abs_of_nonneg (sub_nonneg.mpr hrest), mul_div_assoc, sub_div, div_self hden.ne']
    ring

/-- An integer that is rounded to is at most one half away, and even if it is one half away. -/
theorem roundHalfEven_half (num : Nat) (hd : 0 < den) :
    |(roundHalfEven num den : ℚ) - num / den| ≤ 1 / 2 ∧
      (|(roundHalfEven num den : ℚ) - num / den| = 1 / 2 → Even (roundHalfEven num den)) := by
  have hden : (0 : ℚ) < den := by exact_mod_cast hd
  obtain ⟨missed, hdistance, hle, heven⟩ := abs_roundHalfEven_sub num hd
  rw [hdistance]
  constructor
  · rw [div_le_div_iff_of_pos_right two_pos, div_le_one hden]
    exact_mod_cast hle
  · intro htie
    rw [div_left_inj' two_ne_zero, div_eq_one_iff_eq hden.ne'] at htie
    exact heven (by exact_mod_cast htie)

/-- Different integers are one apart, so together they are at least one away from everything. -/
theorem one_le_distances {r m : Nat} (h : m ≠ r) (t : ℚ) : 1 ≤ |(m : ℚ) - t| + |(r : ℚ) - t| := by
  have hapart : (1 : ℚ) ≤ |(m : ℚ) - r| := by
    have hint : (1 : ℤ) ≤ |(m : ℤ) - r| := Int.one_le_abs (by omega)
    exact_mod_cast hint
  rw [abs_sub_comm (r : ℚ) t]
  exact hapart.trans (abs_sub_le _ _ _)

/-- No multiple of a step is nearer to a ratio than the one it is rounded to, and none as near unless
that one is even. -/
theorem nearest_multiple (num : Nat) (hd : 0 < den) (scale m : Nat) :
    let r := roundHalfEven num (den * 2 ^ scale)
    |((r * 2 ^ scale : Nat) : ℚ) - num / den| ≤ |((m * 2 ^ scale : Nat) : ℚ) - num / den| ∧
      (m ≠ r → |((m * 2 ^ scale : Nat) : ℚ) - num / den| = |((r * 2 ^ scale : Nat) : ℚ) - num / den| →
        Even r) := by
  intro r
  have hstep : (0 : ℚ) < 2 ^ scale := by positivity
  have hscaled (n : Nat) : |((n * 2 ^ scale : Nat) : ℚ) - num / den| =
      |(n : ℚ) - num / (den * 2 ^ scale : Nat)| * 2 ^ scale := by
    rw [← abs_of_pos hstep, ← abs_mul, sub_mul, Nat.cast_mul, Nat.cast_mul,
      ← div_div, Nat.cast_pow, Nat.cast_ofNat, div_mul_cancel₀ _ hstep.ne']
  obtain ⟨hhalf, heven⟩ := roundHalfEven_half num
    (Nat.mul_pos hd (Nat.pow_pos (n := scale) Nat.two_pos))
  rw [hscaled, hscaled, mul_le_mul_iff_of_pos_right hstep, mul_left_inj' hstep.ne']
  by_cases hm : m = r
  · rw [hm]
    exact ⟨le_rfl, fun hne => absurd rfl hne⟩
  · have hone := one_le_distances hm (num / (den * 2 ^ scale : Nat))
    constructor
    · linarith
    · intro _ heq
      apply heven
      linarith

end Rounding

section Nearest

variable {num den : Nat} {negative : Bool} {x : Binary64}

/-- A number that a ratio is rounded to is the multiple of the step of its scale, also when the
significand has to be carried over. -/
theorem units_of_ofUnits? (hd : 0 < den) (h : ofUnits? negative num den = some x) :
    let r := roundHalfEven num (den * 2 ^ scaleOf num den)
    x.negative = negative ∧ x.units = r * 2 ^ scaleOf num den ∧ (Even r → Even x.significand) := by
  intro r
  change (if r < 2 ^ 53 then ofPair? negative r (scaleOf num den)
    else ofPair? negative (2 ^ 52) (scaleOf num den + 1)) = some x at h
  have hpair {significand scale : Nat} (h : ofPair? negative significand scale = some x) :
      x.negative = negative ∧ x.significand = significand ∧ x.scale = scale := by
    unfold ofPair? at h
    split at h
    · cases h
      exact ⟨rfl, rfl, rfl⟩
    · cases h
  split at h
  · obtain ⟨hnegative, hsignificand, hscale⟩ := hpair h
    refine ⟨hnegative, ?_, fun heven => hsignificand ▸ heven⟩
    rw [units, hsignificand, hscale, twoPow_eq]
  · rename_i hcarry
    obtain ⟨hnegative, hsignificand, hscale⟩ := hpair h
    have hr : r = 2 ^ 53 := by
      have hlt := @lt_of_scaleOf num den hd
      have hquotient : num / (den * 2 ^ scaleOf num den) < 2 ^ 53 := by
        apply Nat.div_lt_of_lt_mul
        calc num < 2 ^ (scaleOf num den + 53) * den := hlt
          _ = den * 2 ^ scaleOf num den * 2 ^ 53 := by ring
      apply le_antisymm _ (not_lt.mp hcarry)
      simp only [r, roundHalfEven]
      split_ifs <;> omega
    refine ⟨hnegative, ?_, fun _ => hsignificand ▸ (by decide)⟩
    rw [units, hsignificand, hscale, twoPow_eq, hr]
    ring

/-- No magnitude is nearer to a ratio than the one it is rounded to, and none as near unless that one
has an even significand. -/
theorem nearest_units (hd : 0 < den) (h : ofUnits? negative num den = some x) (y : Binary64) :
    |(x.units : ℚ) - num / den| ≤ |(y.units : ℚ) - num / den| ∧
      (y.units ≠ x.units → |(y.units : ℚ) - num / den| = |(x.units : ℚ) - num / den| →
        Even x.significand) := by
  obtain ⟨-, hunits, heven⟩ := units_of_ofUnits? hd h
  have hgrid := nearest_multiple num hd (scaleOf num den)
  simp only [← hunits] at hgrid
  by_cases hscale : scaleOf num den ≤ y.scale
  · obtain ⟨m, hm⟩ := exists_units_eq hscale
    obtain ⟨hnear, htie⟩ := hgrid m
    rw [hm]
    refine ⟨hnear, fun hne heq => heven (htie ?_ heq)⟩
    intro hr
    rw [hunits, hr] at hne
    exact hne rfl
  -- a number of a smaller scale lies below the least one of the scale of the ratio
  · have hlow := units_lt_of_scale_lt (not_le.mp hscale)
    have hratio : ((2 ^ 52 * 2 ^ scaleOf num den : Nat) : ℚ) ≤ num / den := by
      rw [le_div_iff₀ (by exact_mod_cast hd)]
      have hreach := le_of_scaleOf hd (Nat.zero_lt_of_lt (not_le.mp hscale))
      rw [Nat.add_comm, pow_add] at hreach
      exact_mod_cast hreach
    have hbelow : (y.units : ℚ) < (2 ^ 52 * 2 ^ scaleOf num den : Nat) := by exact_mod_cast hlow
    have hnear := (hgrid (2 ^ 52)).1
    rw [abs_of_nonpos (sub_nonpos.mpr hratio)] at hnear
    rw [abs_of_nonpos (sub_nonpos.mpr (hbelow.le.trans hratio))]
    generalize ((2 ^ 52 * 2 ^ scaleOf num den : Nat) : ℚ) = least at hnear hbelow
    constructor
    · linarith
    · intro _ heq
      linarith

/-- A number is nearest among the numbers of both signs if it is nearest among those of its own. -/
theorem isNearest_of_units {t : ℚ} (ht : 0 ≤ t)
    (h : ∀ y : Binary64, |(x.units : ℚ) - t| ≤ |(y.units : ℚ) - t| ∧
      (y.units ≠ x.units → |(y.units : ℚ) - t| = |(x.units : ℚ) - t| → Even x.significand)) :
    IsNearest (direction x.negative * (t / 2 ^ unitScale)) x := by
  have hunit : (0 : ℚ) < 2 ^ unitScale := pow_pos two_pos _
  have hsame {y : Binary64} (hy : y.negative = x.negative) :
      |y.value - direction x.negative * (t / 2 ^ unitScale)| =
        |(y.units : ℚ) - t| / 2 ^ unitScale := by
    rw [abs_value_sub, hy, ← mul_assoc, direction_mul_self, one_mul, div_mul_cancel₀ _ hunit.ne']
  have hother {y : Binary64} (hy : y.negative ≠ x.negative) :
      |y.value - direction x.negative * (t / 2 ^ unitScale)| =
        ((y.units : ℚ) + t) / 2 ^ unitScale := by
    rw [abs_value_sub, Bool.eq_not.mpr hy, direction_not, ← mul_assoc, neg_mul, direction_mul_self,
      neg_one_mul, neg_mul, div_mul_cancel₀ _ hunit.ne', sub_neg_eq_add,
      abs_of_nonneg (add_nonneg (Nat.cast_nonneg _) ht)]
  let zero : Binary64 := ⟨x.negative, 0, 0, by decide⟩
  have hzero : |(zero.units : ℚ) - t| = t := by
    simp [zero, units, abs_of_nonneg ht]
  obtain ⟨hnear, htie⟩ := h zero
  rw [hzero] at hnear htie
  constructor
  · intro y
    rw [hsame rfl]
    by_cases hy : y.negative = x.negative
    · rw [hsame hy, div_le_div_iff_of_pos_right hunit]
      exact (h y).1
    · rw [hother hy, div_le_div_iff_of_pos_right hunit]
      exact hnear.trans (le_add_of_nonneg_left (Nat.cast_nonneg _))
  · intro y hne heq
    rw [hsame rfl] at heq
    by_cases hy : y.negative = x.negative
    · rw [hsame hy, div_left_inj' hunit.ne'] at heq
      apply (h y).2 _ heq
      intro hunits
      exact hne (by rw [value, value, hy, hunits])
    -- a number of the other sign is as near only if it is zero
    · rw [hother hy, div_left_inj' hunit.ne'] at heq
      have hunits : y.units = 0 := by
        have hle : (y.units : ℚ) ≤ 0 := by linarith
        exact Nat.le_zero.mp (by exact_mod_cast hle)
      rw [hunits, Nat.cast_zero, zero_add] at heq
      apply htie _ heq
      intro hx
      rw [value_eq_of_units_eq_zero hunits, value_eq_of_units_eq_zero hx.symm] at hne
      exact hne rfl

/-- A ratio is rounded to a number that is nearest to it. -/
theorem isNearest_ofRatio? (hd : 0 < den) (h : ofRatio? negative num den = some x) :
    x.negative = negative ∧ IsNearest (direction negative * (num / den)) x := by
  have hunit : (2 : ℚ) ^ unitScale ≠ 0 := pow_ne_zero _ two_ne_zero
  obtain ⟨hnegative, -⟩ := units_of_ofUnits? hd h
  have hratio := div_nonneg (Nat.cast_nonneg (α := ℚ) (num * twoPow unitScale)) (Nat.cast_nonneg den)
  have hnearest := isNearest_of_units hratio (nearest_units hd h)
  rw [hnegative, twoPow_eq, Nat.cast_mul, Nat.cast_pow, Nat.cast_ofNat, mul_div_right_comm,
    mul_div_cancel_right₀ _ hunit] at hnearest
  exact ⟨hnegative, hnearest⟩

theorem ten_zpow (exponent : Int) :
    (10 : ℚ) ^ exponent = tenPow exponent.toNat / tenPow (-exponent).toNat := by
  have hnegative := Int.toNat_sub_toNat_neg exponent
  rw [tenPow_eq, tenPow_eq, Nat.cast_pow, Nat.cast_pow, Nat.cast_ofNat, ← zpow_natCast,
    ← zpow_natCast, ← zpow_sub₀ (by norm_num), hnegative]

/-- A decimal is rounded to a number that is nearest to it. -/
theorem isNearest_ofDecimal? {digits : Nat} {exponent : Int}
    (h : ofDecimal? negative digits exponent = some x) :
    x.negative = negative ∧ IsNearest (direction negative * (digits * 10 ^ exponent)) x := by
  have hden : 0 < tenPow (-exponent).toNat := Nat.pow_pos (by decide)
  have hratio := isNearest_ofRatio? hden h
  rwa [Nat.cast_mul, mul_div_assoc, ← ten_zpow] at hratio

/-- A number that is a rational number itself is nearest to it. -/
theorem isNearest_value (x : Binary64) : IsNearest x.value x := by
  constructor
  · intro y
    rw [sub_self, abs_zero]
    exact abs_nonneg _
  · intro y hne heq
    rw [sub_self, abs_zero, abs_eq_zero, sub_eq_zero] at heq
    exact absurd heq hne

/-- Two numbers that are equally near and of one sign have none between them that is nearer. -/
theorem abs_sub_lt_of_between {a b c t : ℚ} (hab : a < b) (hbc : b < c) (h : |a - t| = |c - t|) :
    |b - t| < |a - t| := by
  rcases abs_eq_abs.mp h with heq | hmiddle
  · exact absurd (sub_left_injective heq) (hab.trans hbc).ne
  · rw [abs_of_neg (show a - t < 0 by linarith), abs_lt]
    constructor <;> linarith

/-- There is one nearest number of each sign. -/
theorem IsNearest.eq {q : ℚ} {x y : Binary64} (hx : IsNearest q x) (hy : IsNearest q y)
    (hs : x.negative = y.negative) : x = y := by
  wlog hle : x.units ≤ y.units generalizing x y
  · exact (this hy hx hs.symm (le_of_not_ge hle)).symm
  by_contra hne
  have hunit : (0 : ℚ) < 2 ^ unitScale := pow_pos two_pos _
  have hlt : x.units < y.units := lt_of_le_of_ne hle fun h => hne (eq_of_units_eq hs h)
  have hvalue : x.value ≠ y.value := by
    rw [value, value, hs, Ne, div_left_inj' hunit.ne', mul_right_inj' (direction_ne_zero _)]
    exact_mod_cast hlt.ne
  have hdistance : |x.value - q| = |y.value - q| := le_antisymm (hx.nearest y) (hy.nearest x)
  have heven := hx.even y hvalue.symm hdistance.symm
  have heven' := hy.even x hvalue hdistance
  have hfits := x.canonical
  -- the significand behind an even one is odd and not carried over
  have hnext : IsCanonical (x.significand + 1) x.scale := by
    refine ⟨?_, hfits.2.1, hfits.2.2.imp_right Nat.le_succ_of_le⟩
    have hlast := hfits.1
    rw [Nat.even_iff] at heven
    have hbound : twoPow 53 = 2 ^ 53 := rfl
    omega
  let z : Binary64 := ⟨x.negative, x.significand + 1, x.scale, hnext⟩
  have hz : z.units = x.units + 2 ^ x.scale := Nat.succ_mul _ _
  rcases (add_step_le_units hlt).lt_or_eq with hbetween | hreached
  · have hnear := hx.nearest z
    rw [abs_value_sub, abs_value_sub, ← hs, div_left_inj' hunit.ne'] at hdistance
    rw [abs_value_sub, abs_value_sub, div_le_div_iff_of_pos_right hunit] at hnear
    refine hnear.not_gt (abs_sub_lt_of_between ?_ ?_ hdistance)
    · exact_mod_cast hz ▸ Nat.lt_add_of_pos_right (Nat.pow_pos (by decide))
    · exact_mod_cast hz ▸ hbetween
  · have heq : z = y := eq_of_units_eq hs (hz.trans hreached)
    rw [← heq] at heven'
    exact Nat.not_even_iff_odd.mpr heven.add_one heven'

end Nearest

end Lexing.Numeral.Binary64
