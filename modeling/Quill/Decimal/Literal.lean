/-!
# Number literals

The values of the digit strings that stand for numbers in a program.
-/

namespace Quill.Decimal

/-- The number that a string of decimal digits spells. -/
def digitsValue (digits : List Char) : Nat :=
  digits.foldl (fun value digit => value * 10 + (digit.toNat - '0'.toNat)) 0

/-- The largest value of an integer. -/
def maxInt : Nat := 9223372036854775807

/-- The integer that a string of digits spells, if it is not too large. -/
def intLiteral? (text : String) : Option Int64 :=
  let value := digitsValue text.toList
  if value ≤ maxInt then some (Int64.ofNat value) else none

/-- The floating-point number nearest to what digits with a decimal point spell. -/
def floatLiteral (text : String) : Float :=
  let whole := text.toList.takeWhile (· != '.')
  let decimals := (text.toList.dropWhile (· != '.')).drop 1
  Float.ofScientific (digitsValue (whole ++ decimals)) true decimals.length

end Quill.Decimal
