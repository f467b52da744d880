import Quill.Fault
import Quill.Operator
import Quill.Value

/-!
# Operators on values

Integers are computed exactly, and a result that does not fit is a fault.  If one operand is a
floating-point number, so is the result.  Addition also joins texts and extends arrays.
-/

namespace Quill

/-- The integer with an exact value, if it fits. -/
def exactInt? (value : Int) : Option Int64 :=
  if Int64.minValue.toInt ≤ value ∧ value ≤ Int64.maxValue.toInt then
    some (Int64.ofInt value)
  else
    none

/-- The integer with an exact value, or the fault if it does not fit. -/
def exactInt (value : Int) : Except Fault Value :=
  match exactInt? value with
  | some result => .ok (.int result)
  | none => .error .integerOverflow

namespace Value

/-- The fault of an operator between operands that it does not take. -/
def operandFault (operator : Operator) (left right : Value) : Fault :=
  .uncheckedProgram (left.typeName ++ " " ++ operator.symbol ++ " " ++ right.typeName)

/-- Arithmetic on integers; division goes toward zero. -/
def intArithmetic (operator : Operator) (left right : Int64) : Except Fault Value :=
  match operator with
  | .add => exactInt (left.toInt + right.toInt)
  | .subtract => exactInt (left.toInt - right.toInt)
  | .multiply => exactInt (left.toInt * right.toInt)
  | .divide =>
    if right == 0 then .error .divisionByZero else exactInt (left.toInt.tdiv right.toInt)
  | _ => .error .integerOverflow

/-- Arithmetic on floating-point numbers. -/
def floatArithmetic (operator : Operator) (left right : Float) : Float :=
  match operator with
  | .add => left + right
  | .subtract => left - right
  | .multiply => left * right
  | _ => left / right

/-- Arithmetic on numbers of either kind. -/
def arithmetic (operator : Operator) (left right : Value) : Except Fault Value :=
  match left, right with
  | .int l, .int r => intArithmetic operator l r
  | left, right =>
    match left.toFloat?, right.toFloat? with
    | some l, some r => .ok (.float (floatArithmetic operator l r))
    | _, _ => .error (operandFault operator left right)

/-- Addition: of numbers, of a text and any value, or of an array and a further element. -/
def plus (left right : Value) : Except Fault Value :=
  match left, right with
  | .int _, .int _ | .int _, .float _ | .float _, .int _ | .float _, .float _ =>
    arithmetic .add left right
  | .string l, right => .ok (.string (l ++ right.text))
  | left, .string r => .ok (.string (left.text ++ r))
  | .array elements, right => .ok (.array (elements ++ [right]))
  | left, right => .error (operandFault .add left right)

/-- How two integers compare under an operator for order. -/
def intOrder (operator : Operator) (left right : Int64) : Bool :=
  match operator with
  | .less => left < right
  | .lessEqual => left ≤ right
  | .greater => right < left
  | _ => right ≤ left

/-- How two floating-point numbers compare under an operator for order; what is not a number
compares with nothing. -/
def floatOrder (operator : Operator) (left right : Float) : Bool :=
  match operator with
  | .less => left < right
  | .lessEqual => left ≤ right
  | .greater => right < left
  | _ => right ≤ left

/-- Comparison of numbers of either kind. -/
def compare (operator : Operator) (left right : Value) : Except Fault Value :=
  match left, right with
  | .int l, .int r => .ok (.bool (intOrder operator l r))
  | left, right =>
    match left.toFloat?, right.toFloat? with
    | some l, some r => .ok (.bool (floatOrder operator l r))
    | _, _ => .error (operandFault operator left right)

/-- The value of an operator between two values. -/
def apply (operator : Operator) (left right : Value) : Except Fault Value :=
  match operator with
  | .equal => .ok (.bool (left.equals right))
  | .notEqual => .ok (.bool (!left.equals right))
  | .add => plus left right
  | .subtract | .multiply | .divide => arithmetic operator left right
  | .less | .lessEqual | .greater | .greaterEqual => compare operator left right

end Value

end Quill
