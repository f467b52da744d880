/-!
# Floating-point numbers as exact numbers

A finite floating-point number is a whole number, its mantissa, times a power of two.  All exact
work on such numbers (their shortest decimal form, their whole part) starts from that form.
-/

namespace Quill.Decimal

/-- A power of two. -/
def twoTo (exponent : Nat) : Nat :=
  Nat.pow 2 exponent

/-- A power of ten. -/
def tenTo (exponent : Nat) : Nat :=
  Nat.pow 10 exponent

/-- What a floating-point number stands for. -/
inductive Binary64 where
  | notANumber
  | infinite (negative : Bool)
  /-- The number `mantissa * 2 ^ exponent`, or its negative. -/
  | finite (negative : Bool) (mantissa : Nat) (exponent : Int)
  deriving DecidableEq, Inhabited

namespace Binary64

/-- The least exponent of a finite number; numbers with it may have any mantissa below `2 ^ 53`. -/
def leastExponent : Int := -1074

/-- Reads the sign, the exponent and the mantissa off the bits of a number. -/
def ofFloat (x : Float) : Binary64 :=
  let bits := x.toBits.toNat
  let negative := decide (twoTo 63 ≤ bits)
  let biased : Nat := bits / twoTo 52 % twoTo 11
  let fraction : Nat := bits % twoTo 52
  if biased = 2047 then
    if fraction = 0 then infinite negative else notANumber
  else if biased = 0 then
    finite negative fraction leastExponent
  else
    finite negative (fraction + twoTo 52) ((biased : Int) - 1 + leastExponent)

/-- The whole part of `mantissa * 2 ^ exponent`. -/
def wholePart (mantissa : Nat) (exponent : Int) : Nat :=
  mantissa * twoTo exponent.toNat / twoTo (-exponent).toNat

/-- The integer nearest to an exact one: itself, or one of the two ends of the range. -/
def clamp (value : Int) : Int64 :=
  if value < Int64.minValue.toInt then
    Int64.minValue
  else if Int64.maxValue.toInt < value then
    Int64.maxValue
  else
    Int64.ofInt value

/-- The integer part of a number, toward zero.  Numbers beyond the range give its ends, and what is
not a number gives zero. -/
def truncate : Binary64 → Int64
  | notANumber => 0
  | infinite negative => if negative then Int64.minValue else Int64.maxValue
  | finite negative mantissa exponent =>
    let whole : Int := wholePart mantissa exponent
    clamp (if negative then -whole else whole)

end Binary64

end Quill.Decimal
