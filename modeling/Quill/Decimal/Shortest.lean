import Quill.Decimal.Binary64

/-!
# Shortest decimals

The decimals that a reader rounds to the floating-point number `m * 2 ^ q` are those between the
midpoints to its two neighbours; the midpoints themselves belong to it if `m` is even.  `shortest`
finds the decimal with the fewest digits among them, and of two such decimals the nearer one.  All
arithmetic is exact.
-/

namespace Quill.Decimal

/-- A decimal number `digits * 10 ^ exponent`. -/
structure Scientific where
  digits : Nat
  exponent : Int
  deriving DecidableEq, Inhabited

/-- A number with the range of the numbers that round to it, over a common denominator. -/
structure RoundingRange where
  value : Nat
  low : Nat
  high : Nat
  denominator : Nat
  /-- Whether the two ends belong to the range. -/
  closed : Bool
  deriving DecidableEq, Inhabited

namespace RoundingRange

/-- The range of `mantissa * 2 ^ exponent`.  In quarters of the last place, the midpoints lie two
above and two below, or one below if the neighbour there has a smaller exponent. -/
def ofBinary (mantissa : Nat) (exponent : Int) : RoundingRange :=
  let quarter := twoTo (exponent - 2).toNat
  let below := if mantissa = twoTo 52 ∧ Binary64.leastExponent < exponent then 1 else 2
  { value := 4 * mantissa * quarter
    low := (4 * mantissa - below) * quarter
    high := (4 * mantissa + 2) * quarter
    denominator := twoTo (2 - exponent).toNat
    closed := mantissa % 2 = 0 }

/-- The exponent of the leading decimal digit of the value.  The value is scaled up far enough to
have digits before the point. -/
def leadingExponent (range : RoundingRange) : Int :=
  let scale : Nat := 400
  let scaled := range.value * tenTo scale / range.denominator
  ((Nat.toDigits 10 scaled).length : Int) - 1 - scale

/-- Whether the decimal `digits * 10 ^ exponent` lies in the range. -/
def holds (range : RoundingRange) (decimal : Scientific) : Bool :=
  let point := decimal.digits * tenTo decimal.exponent.toNat * range.denominator
  let scale := tenTo (-decimal.exponent).toNat
  if range.closed then
    range.low * scale ≤ point && point ≤ range.high * scale
  else
    range.low * scale < point && point < range.high * scale

/-- The decimal with the given exponent that lies in the range, if there is one, and of the two
around the value the nearer; of two that are equally near, the larger. -/
def nearest? (range : RoundingRange) (exponent : Int) : Option Scientific :=
  let unit := tenTo exponent.toNat * range.denominator
  let value := range.value * tenTo (-exponent).toNat
  let lower : Scientific := ⟨value / unit, exponent⟩
  let upper : Scientific := ⟨value / unit + 1, exponent⟩
  match range.holds lower, range.holds upper with
  | true, true => some (if 2 * value < (2 * lower.digits + 1) * unit then lower else upper)
  | true, false => some lower
  | false, true => some upper
  | false, false => none

end RoundingRange

/-- The same decimal without zeros at the end of its digits; the first argument bounds their
number. -/
def dropZeros : Nat → Scientific → Scientific
  | 0, decimal => decimal
  | bound + 1, decimal =>
    if decimal.digits ≠ 0 ∧ decimal.digits % 10 = 0 then
      dropZeros bound ⟨decimal.digits / 10, decimal.exponent + 1⟩
    else
      decimal

/-- The most digits that a floating-point number needs. -/
def maxDigits : Nat := 17

/-- The decimal with the fewest digits that reads back as `mantissa * 2 ^ exponent`, for a mantissa
other than zero. -/
def shortest (mantissa : Nat) (exponent : Int) : Scientific :=
  let range := RoundingRange.ofBinary mantissa exponent
  let leading := range.leadingExponent
  let found :=
    (List.range maxDigits).findSome? fun (count : Nat) => range.nearest? (leading - count)
  dropZeros maxDigits (found.getD ⟨mantissa, exponent⟩)

end Quill.Decimal
