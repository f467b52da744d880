import Quill.Decimal.Shortest

/-!
# Floating-point numbers as text

Numbers of moderate size are written with a decimal point and at least one digit after it, others
with an exponent.  The digits are the fewest that read back as the same number.
-/

namespace Quill.Decimal

/-- The choices in writing floating-point numbers. -/
structure FloatStyle where
  /-- The least exponent of the leading digit that is written without an exponent. -/
  positionalFrom : Int
  /-- The least exponent of the leading digit that is written with an exponent again. -/
  positionalBelow : Int
  /-- What stands between the digits and the exponent. -/
  exponentMark : String
  /-- What is written after a whole number. -/
  wholeEnding : String
  infinity : String
  notANumber : String

/-- The style of the language: `0.0001` to `9999999999999998.0` without an exponent, whole numbers
with `.0`, and exponents without a plus sign. -/
def FloatStyle.standard : FloatStyle where
  positionalFrom := -4
  positionalBelow := 16
  exponentMark := "e"
  wholeEnding := ".0"
  infinity := "inf"
  notANumber := "NaN"

/-- A run of zeros. -/
def zeros (count : Nat) : List Char :=
  List.replicate count '0'

/-- The digits of a number with a point after the first `count` of them. -/
def withPoint (digits : List Char) (count : Nat) : List Char :=
  digits.take count ++ '.' :: digits.drop count

/-- Writes a decimal without its sign. -/
def Scientific.text (style : FloatStyle) (decimal : Scientific) : String :=
  let digits := Nat.toDigits 10 decimal.digits
  let leading := decimal.exponent + digits.length - 1
  if style.positionalFrom ≤ leading ∧ leading < style.positionalBelow then
    if 0 ≤ decimal.exponent then
      String.ofList (digits ++ zeros decimal.exponent.toNat) ++ style.wholeEnding
    else if 0 ≤ leading then
      String.ofList (withPoint digits (leading.toNat + 1))
    else
      String.ofList (withPoint ('0' :: zeros (-leading - 1).toNat ++ digits) 1)
  else
    let mantissa := if digits.length = 1 then digits else withPoint digits 1
    String.ofList mantissa ++ style.exponentMark ++ toString leading

/-- Writes a number; zero has a sign, and what is not a number has none. -/
def Binary64.text (style : FloatStyle) : Binary64 → String
  | notANumber => style.notANumber
  | infinite negative => (if negative then "-" else "") ++ style.infinity
  | finite negative mantissa exponent =>
    let magnitude :=
      if mantissa = 0 then "0" ++ style.wholeEnding
      else (shortest mantissa exponent).text style
    (if negative then "-" else "") ++ magnitude

/-- The text of a floating-point number. -/
def floatText (x : Float) : String :=
  (Binary64.ofFloat x).text .standard

end Quill.Decimal
