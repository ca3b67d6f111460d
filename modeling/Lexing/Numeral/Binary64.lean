import Lexing.Numeral.Power

/-!
# Binary floating point

The finite numbers of the 64-bit binary format, and the rounding of a ratio of natural numbers to
the nearest of them. A magnitude is `significand * 2 ^ scale` in units of `2 ^ -1074`, the smallest
positive number of the format; all arithmetic here is exact.
-/

namespace Lexing.Numeral

/-- One is `2 ^ unitScale` units. -/
def unitScale : Nat := 1074

/-- What makes a significand and a scale the one canonical pair of a magnitude. -/
def IsCanonical (significand scale : Nat) : Prop :=
  significand < twoPow 53 ∧ scale ≤ 2045 ∧ (scale = 0 ∨ twoPow 52 ≤ significand)

instance (significand scale : Nat) : Decidable (IsCanonical significand scale) :=
  inferInstanceAs (Decidable (_ ∧ _ ∧ _))

/-- A finite number. Zero has a sign too. -/
structure Binary64 where
  negative : Bool
  significand : Nat
  scale : Nat
  canonical : IsCanonical significand scale
  deriving DecidableEq

namespace Binary64

/-- Equality of values: the two zeros are equal. -/
def sameValue (a b : Binary64) : Bool :=
  a.significand == b.significand && a.scale == b.scale &&
    (a.negative == b.negative || a.significand == 0)

/-- The magnitude in units of `2 ^ -1074`. -/
def units (x : Binary64) : Nat :=
  x.significand * twoPow x.scale

/-- The integer nearest to a ratio; of two, the even one. -/
def roundHalfEven (num den : Nat) : Nat :=
  let quotient := num / den
  let twice := 2 * (num % den)
  if twice < den ∨ (twice = den ∧ quotient % 2 = 0) then quotient else quotient + 1

/-- The scale at which a ratio of units has a significand of at most 53 bits. -/
def scaleOf (num den : Nat) : Nat :=
  (num / den).log2 - 52

/-- The number of a significand and a scale, unless the pair is out of range. -/
def ofPair? (negative : Bool) (significand scale : Nat) : Option Binary64 :=
  if h : IsCanonical significand scale then some ⟨negative, significand, scale, h⟩ else none

/--
The number nearest to a ratio of units. A significand that rounds up to 54 bits is a power of two.
-/
def ofUnits? (negative : Bool) (num den : Nat) : Option Binary64 :=
  let scale := scaleOf num den
  let significand := roundHalfEven num (den * twoPow scale)
  if significand < twoPow 53 then ofPair? negative significand scale
  else ofPair? negative (twoPow 52) (scale + 1)

/-- The number nearest to `num / den`, ties to even; none if that exceeds the largest number. -/
def ofRatio? (negative : Bool) (num den : Nat) : Option Binary64 :=
  ofUnits? negative (num * twoPow unitScale) den

/-- The number nearest to `digits * 10 ^ exponent`. -/
def ofDecimal? (negative : Bool) (digits : Nat) (exponent : Int) : Option Binary64 :=
  ofRatio? negative (digits * tenPow exponent.toNat) (tenPow (-exponent).toNat)

end Binary64

end Lexing.Numeral
