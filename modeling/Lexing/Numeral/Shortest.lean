import Lexing.Numeral.Binary64

/-!
# Shortest decimal text

A number is written with the fewest significant digits that read back as the same number, and of
those with the nearest. Numbers from `10 ^ -4` up to `10 ^ 16` are written positionally with at
least one digit after the point, all others with an exponent of a sign and at least two digits.
-/

namespace Lexing.Numeral

/-- The value `digits * 10 ^ exponent`. -/
structure Decimal where
  digits : Nat
  exponent : Int
  deriving DecidableEq, Repr

namespace Binary64

def digitCount (n : Nat) : Nat := (Nat.toDigits 10 n).length

/-- The exponent of the leading decimal digit of a number that is not zero. -/
def decimalExponent (x : Binary64) : Int :=
  let one := twoPow unitScale
  if one ≤ x.units then digitCount (x.units / one) - 1
  else
    let count := digitCount (one / x.units)
    if one ≤ x.units * tenPow (count - 1) then 1 - (count : Int) else -count

/-- The two decimals with a given exponent around a number, the nearer first and of two the even. -/
def neighbours (x : Binary64) (exponent : Int) : List Decimal :=
  let num := x.units * tenPow (-exponent).toNat
  let den := twoPow unitScale * tenPow exponent.toNat
  let low := num / den
  if roundHalfEven num den = low then [⟨low, exponent⟩, ⟨low + 1, exponent⟩]
  else [⟨low + 1, exponent⟩, ⟨low, exponent⟩]

/-- Whether a decimal reads back as the magnitude of a number. -/
def readsBack (x : Binary64) (d : Decimal) : Bool :=
  (ofDecimal? false d.digits d.exponent).any fun y =>
    y.significand == x.significand && y.scale == x.scale

/-- The magnitude in full. -/
def exactDecimal (x : Binary64) : Decimal :=
  ⟨x.units * Nat.pow 5 unitScale, -unitScale⟩

/-- The first decimal to read back when the digits grow from one to seventeen. -/
def shortest (x : Binary64) : Decimal :=
  if x.significand = 0 then ⟨0, 0⟩
  else
    let leading := x.decimalExponent
    let candidates := (List.range 17).flatMap fun (more : Nat) => x.neighbours (leading - more)
    (candidates.find? x.readsBack).getD x.exactDecimal

/-- Exponent part: a sign and at least two digits. -/
def exponentText (exponent : Int) : List Char :=
  (if exponent < 0 then '-' else '+') :: (Nat.toDigits 10 exponent.natAbs).leftpad 2 '0'

/-- Significant digits with the point after the first `point` of them. -/
def positional (digits : List Char) (point : Int) : List Char :=
  if point ≤ 0 then '0' :: '.' :: (List.replicate (-point).toNat '0' ++ digits)
  else
    let whole := point.toNat
    if digits.length ≤ whole then
      digits ++ List.replicate (whole - digits.length) '0' ++ ['.', '0']
    else digits.take whole ++ '.' :: digits.drop whole

/-- Significant digits with the point after the first, times a power of ten. -/
def scientific (digits : List Char) (exponent : Int) : List Char :=
  match digits with
  | [] => ['0', '.', '0']
  | [d] => d :: 'e' :: exponentText exponent
  | d :: more => d :: '.' :: (more ++ 'e' :: exponentText exponent)

/-- Writes a decimal, its trailing zeros left out. -/
def layOut (d : Decimal) : List Char :=
  let digits := Nat.toDigits 10 d.digits
  let point : Int := digits.length + d.exponent
  let significant := (digits.reverse.dropWhile (· == '0')).reverse
  if -4 < point ∧ point ≤ 16 then positional significant point
  else scientific significant (point - 1)

def text (x : Binary64) : List Char :=
  let magnitude := layOut x.shortest
  if x.negative then '-' :: magnitude else magnitude

end Binary64

end Lexing.Numeral
