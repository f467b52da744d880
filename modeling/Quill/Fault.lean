/-!
# Faults

A fault stops a running program.  Most faults cannot arise in a program that passed the type
checker; the others depend on the values that the program computes.
-/

namespace Quill

/-- Why a running program stops. -/
inductive Fault where
  | uncheckedProgram (what : String)
  | notCallable (name : String)
  | arityMismatch (function : String) (expected received : Nat)
  | popGlobalFrame
  | invalidScalar (value : Int64)
  | indexOutOfBounds (index : Int64) (length : Nat)
  | divisionByZero
  | integerOverflow
  | emptyRange (lower upper : String)
  | negativeLength (length : Int64)
  | frameExpired (function : String)
  | returnOutsideFunction
  | notAssignable
  | outputFailed (reason : String)
  deriving DecidableEq, Inhabited

namespace Fault

/-- The sentence that tells the fault. -/
def message : Fault → String
  | uncheckedProgram what => "type checker missed " ++ what
  | notCallable name => "'" ++ name ++ "' is not callable"
  | arityMismatch function expected received =>
    "'" ++ function ++ "' expects " ++ toString expected ++ " arguments but received "
      ++ toString received
  | popGlobalFrame => "cannot pop the global scope"
  | invalidScalar value => toString value.toInt ++ " is not a valid unicode scalar value"
  | indexOutOfBounds index length =>
    "index " ++ toString index.toInt ++ " is out of bounds for length " ++ toString length
  | divisionByZero => "division by zero"
  | integerOverflow => "integer overflow"
  | emptyRange lower upper => "empty range " ++ lower ++ ".." ++ upper
  | negativeLength length => "negative array length " ++ toString length.toInt
  | frameExpired function =>
    "'" ++ function ++ "' was called after the frame it was declared in returned"
  | returnOutsideFunction => "'return' escaped its function"
  | notAssignable => "expression is not assignable"
  | outputFailed reason => "failed to write output: " ++ reason

end Fault

end Quill
