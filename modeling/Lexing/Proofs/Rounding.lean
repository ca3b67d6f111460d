import Mathlib
import Lexing.Numeral.Binary64

/-!
# Overflow of decimal numbers

Which decimal numbers have no nearest finite number of the 64-bit binary format: those that reach
the middle between the largest finite number and the power of two above it, where the tie goes to
the power of two.
-/

namespace Lexing.Numeral

theorem twoPow_eq (n : Nat) : twoPow n = 2 ^ n := rfl

theorem tenPow_eq (n : Nat) : tenPow n = 10 ^ n := rfl

/-- The least magnitude that rounds to no finite number. -/
def overflowBound : Nat := 2 ^ 1024 - 2 ^ 970

theorem overflowBound_eq : overflowBound = (2 ^ 54 - 1) * 2 ^ 970 := by
  rw [overflowBound, Nat.sub_mul, ← pow_add, one_mul]

namespace Binary64

/-- An even integer is reached from half a unit below it on. -/
theorem le_roundHalfEven_iff {num den m : Nat} (hd : 0 < den) (hm : m % 2 = 0) (hpos : 0 < m) :
    m ≤ roundHalfEven num den ↔ (2 * m - 1) * den ≤ 2 * num := by
  have hnum := Nat.div_add_mod num den
  have hmod := Nat.mod_lt num hd
  rcases Nat.lt_trichotomy m (num / den + 1) with hlt | heq | hgt
  · have hround : m ≤ roundHalfEven num den := by
      simp only [roundHalfEven]
      split <;> omega
    have hmul : (2 * m - 1) * den ≤ (2 * (num / den)) * den := Nat.mul_le_mul_right den (by omega)
    have hcomm : (2 * (num / den)) * den = 2 * (den * (num / den)) := by ring
    exact iff_of_true hround (by omega)
  · have hodd : (2 * m - 1) * den = 2 * (den * (num / den)) + den := by
      rw [heq, show 2 * (num / den + 1) - 1 = 2 * (num / den) + 1 by omega]
      ring
    rw [hodd]
    simp only [roundHalfEven]
    split <;> omega
  · have hround : roundHalfEven num den < m := by
      simp only [roundHalfEven]
      split <;> omega
    have hmul : (2 * (num / den) + 3) * den ≤ (2 * m - 1) * den :=
      Nat.mul_le_mul_right den (by omega)
    have hcomm : (2 * (num / den) + 3) * den = 2 * (den * (num / den)) + 3 * den := by ring
    exact iff_of_false (by omega) (by omega)

theorem le_roundHalfEven {num den m : Nat} (hd : 0 < den) (h : m * den ≤ num) :
    m ≤ roundHalfEven num den := by
  have hdiv := (Nat.le_div_iff_mul_le hd).mpr h
  simp only [roundHalfEven]
  split <;> omega

theorem lt_of_scaleOf {num den : Nat} (hd : 0 < den) :
    num < 2 ^ (scaleOf num den + 53) * den := by
  rw [← Nat.div_lt_iff_lt_mul hd]
  refine Nat.lt_log2_self.trans_le (Nat.pow_le_pow_right (by decide) ?_)
  simp only [scaleOf]
  omega

theorem le_of_scaleOf {num den : Nat} (hd : 0 < den) (hs : 0 < scaleOf num den) :
    2 ^ (scaleOf num den + 52) * den ≤ num := by
  rw [← Nat.le_div_iff_mul_le hd]
  have hlog : scaleOf num den + 52 = (num / den).log2 := by
    simp only [scaleOf] at hs ⊢
    omega
  rw [hlog]
  refine Nat.log2_self_le ?_
  intro hzero
  rw [hzero] at hlog
  simp at hlog

theorem ofPair?_eq_none_iff (negative : Bool) {significand scale : Nat}
    (hs : significand < 2 ^ 53) (hc : scale = 0 ∨ 2 ^ 52 ≤ significand) :
    ofPair? negative significand scale = none ↔ 2045 < scale := by
  have hcanonical : IsCanonical significand scale ↔ scale ≤ 2045 :=
    ⟨fun h => h.2.1, fun h => ⟨hs, h, hc⟩⟩
  by_cases h : scale ≤ 2045
  · simp [ofPair?, hcanonical, h]
  · simp [ofPair?, hcanonical, h, not_le.mp h]

theorem ofUnits?_eq_none_iff (negative : Bool) {num den : Nat} (hd : 0 < den) :
    ofUnits? negative num den = none ↔ (2 ^ 54 - 1) * (2 ^ 2044 * den) ≤ num := by
  obtain ⟨units, hunits⟩ : ∃ units : Nat → Nat, ∀ a, units a = 2 ^ a * den := ⟨_, fun _ => rfl⟩
  have hdouble (a : Nat) : units (a + 1) = 2 * units a := by
    rw [hunits, hunits, pow_succ]
    ring
  have hmono {a b : Nat} (h : a ≤ b) : units a ≤ units b := by
    rw [hunits, hunits]
    exact Nat.mul_le_mul_right den (Nat.pow_le_pow_right (by decide) h)
  let scale := scaleOf num den
  have hunit : den * twoPow scale = units scale := by
    rw [hunits, Nat.mul_comm, twoPow_eq]
  have hpos : 0 < units scale := by
    rw [hunits]
    exact Nat.mul_pos (Nat.pow_pos (by decide)) hd
  have hupper : num < 2 ^ 53 * units scale := by
    have h : num < 2 ^ (scale + 53) * den := lt_of_scaleOf hd
    rwa [pow_add, Nat.mul_comm (2 ^ _), Nat.mul_assoc, ← hunits] at h
  have hlower (hs : 0 < scale) : 2 ^ 52 * units scale ≤ num := by
    have h : 2 ^ (scale + 52) * den ≤ num := le_of_scaleOf hd hs
    rwa [pow_add, Nat.mul_comm (2 ^ _), Nat.mul_assoc, ← hunits] at h
  have hcarry : 2 ^ 53 ≤ roundHalfEven num (units scale) ↔ (2 ^ 54 - 1) * units scale ≤ 2 * num :=
    le_roundHalfEven_iff hpos (by decide) (by decide)
  have htwice : units 2045 = 2 * units 2044 := hdouble 2044
  rw [← hunits]
  change (if roundHalfEven num (den * twoPow scale) < 2 ^ 53 then
    ofPair? negative (roundHalfEven num (den * twoPow scale)) scale
    else ofPair? negative (2 ^ 52) (scale + 1)) = none ↔ _
  rw [hunit]
  split
  -- without a carry the pair overflows from scale 2046 on, which only larger numbers have
  · rename_i hsig
    have hc : scale = 0 ∨ 2 ^ 52 ≤ roundHalfEven num (units scale) :=
      (Nat.eq_zero_or_pos scale).imp_right fun hs => le_roundHalfEven hpos (hlower hs)
    have hshort := mt hcarry.mpr (not_le.mpr hsig)
    rw [ofPair?_eq_none_iff negative hsig hc]
    constructor
    · intro hs
      have hfar := hmono (show 2046 ≤ scale from hs)
      have hfour : units 2046 = 2 * units 2045 := hdouble 2045
      have hreach := hlower (by omega)
      omega
    · intro hreach
      by_contra hs
      have hnear := hmono (show scale ≤ 2045 by omega)
      omega
  -- the carry raises scale 2045 too, and the carry begins at the bound
  · rename_i hsig
    have hlong := hcarry.mp (not_lt.mp hsig)
    rw [ofPair?_eq_none_iff negative (by decide) (.inr le_rfl)]
    constructor
    · intro hs
      have hfar := hmono (show 2045 ≤ scale by omega)
      omega
    · intro hreach
      by_contra hs
      have hnear := hmono (show scale ≤ 2044 by omega)
      omega

/-- A decimal fraction overflows exactly from the bound on. -/
theorem ofDecimal?_eq_none_iff (negative : Bool) (digits places : Nat) :
    ofDecimal? negative digits (-(places : Int)) = none ↔
      overflowBound * 10 ^ places ≤ digits := by
  have hexponent : (-(places : Int)).toNat = 0 := by omega
  have hplaces : (-(-(places : Int))).toNat = places := by omega
  have hscaled : (2 ^ 54 - 1) * (2 ^ 2044 * 10 ^ places) =
      overflowBound * 10 ^ places * 2 ^ unitScale := by
    rw [overflowBound_eq, show 2044 = 970 + unitScale from rfl, pow_add]
    generalize 2 ^ 970 = bound
    generalize 2 ^ unitScale = unit
    ring
  have hratio : ofDecimal? negative digits (-(places : Int)) =
      ofUnits? negative (digits * 2 ^ unitScale) (10 ^ places) := by
    rw [ofDecimal?, hexponent, hplaces, ofRatio?, twoPow_eq, tenPow_eq, tenPow_eq, pow_zero,
      Nat.mul_one]
  rw [hratio, ofUnits?_eq_none_iff negative (Nat.pow_pos (by decide)), hscaled]
  exact Nat.mul_le_mul_right_iff (Nat.pow_pos (by decide))

end Binary64

end Lexing.Numeral
