import Quill.Operator
import Quill.Ty

/-!
# Diagnostics

A diagnostic is a problem found in a program before it runs, with the stretch of text to blame
and the stage that found it.
-/

namespace Quill

/-- The stage that finds a problem. -/
inductive Phase where
  | lexing
  | parsing
  | typing
  deriving DecidableEq, Inhabited

/-- The phase as it is shown. -/
def Phase.text : Phase → String
  | lexing => "lex error"
  | parsing => "syntax error"
  | typing => "type error"

/-- What can be wrong with a program before it runs. -/
inductive Problem where
  | unexpectedToken (token : String)
  | unterminatedString
  | invalidNumber (token : String)
  | expectedExpression
  | notAType (name : String)
  | invalidOperator (operator : Operator)
  | cannotExecute (name : String)
  | doesNotExist (name : String)
  | incorrectArgumentCount (expected received : Nat)
  | incorrectType (expected received : Ty)
  | cannotReturnHere
  | numericValuesOnly
  | alreadyInScope (name : String)
  | functionAlreadyDeclared (name : String)
  | cannotIndexInto (type : Ty)
  | invalidAssignmentTarget
  | notAllPathsReturn
  deriving DecidableEq, Inhabited

namespace Problem

/-- The name of the kind of problem. -/
def name : Problem → String
  | unexpectedToken _ => "UnexpectedToken"
  | unterminatedString => "UnterminatedString"
  | invalidNumber _ => "NumberParseError"
  | expectedExpression => "ExpectedExpression"
  | notAType _ => "NotAType"
  | invalidOperator _ => "InvalidOperator"
  | cannotExecute _ => "CannotExecute"
  | doesNotExist _ => "DoesNotExist"
  | incorrectArgumentCount _ _ => "IncorrectNumberOfArgs"
  | incorrectType _ _ => "IncorrectType"
  | cannotReturnHere => "CannotReturnHere"
  | numericValuesOnly => "NumericValuesOnly"
  | alreadyInScope _ => "AlreadyInScope"
  | functionAlreadyDeclared _ => "FunctionAlreadyDeclared"
  | cannotIndexInto _ => "CannotIndexInto"
  | invalidAssignmentTarget => "InvalidAssignmentTarget"
  | notAllPathsReturn => "NotAllCodePathsReturn"

/-- The sentence that tells the problem. -/
def message : Problem → String
  | unexpectedToken token => "Unexpected Token '" ++ token ++ "'"
  | unterminatedString => "Unterminated string literal"
  | invalidNumber token => "Invalid number '" ++ token ++ "', is it above the integer limit?"
  | expectedExpression => "Expected expression"
  | notAType name => "No such type '" ++ name ++ "'"
  | invalidOperator operator => "Invalid operator '" ++ operator.symbol ++ "'"
  | cannotExecute name => "Cannot call non function type '" ++ name ++ "'"
  | doesNotExist name => "'" ++ name ++ "' does not exist"
  | incorrectArgumentCount expected received =>
    "Incorrect number of arguments; Expected " ++ toString expected ++ " but got "
      ++ toString received
  | incorrectType expected received =>
    "Incorrect type; Expected '" ++ expected.text ++ "' but got '" ++ received.text ++ "'"
  | cannotReturnHere => "Cannot 'return' here"
  | numericValuesOnly => "Numeric values only"
  | alreadyInScope name => "'" ++ name ++ "' is already in scope"
  | functionAlreadyDeclared name => "Function '" ++ name ++ "' already declared"
  | cannotIndexInto type => "Cannot index into type '" ++ type.text ++ "'"
  | invalidAssignmentTarget => "Cannot assign to this expression"
  | notAllPathsReturn => "Not all codepaths return a value"

/-- The stage that usually finds the problem.  Stray characters are unexpected tokens too, and are
found while lexing. -/
def phase : Problem → Phase
  | unterminatedString => .lexing
  | unexpectedToken _ | invalidNumber _ | expectedExpression | notAType _ => .parsing
  | _ => .typing

end Problem

/-- A problem, the text to blame and the stage that found it. -/
structure Diagnostic where
  problem : Problem
  span : Span
  phase : Phase
  deriving DecidableEq, Inhabited

namespace Diagnostic

/-- A problem at a span, found by its usual stage. -/
def of (problem : Problem) (span : Span) : Diagnostic :=
  ⟨problem, span, problem.phase⟩

/-- The same diagnostic, found by another stage. -/
def inPhase (diagnostic : Diagnostic) (phase : Phase) : Diagnostic :=
  { diagnostic with phase := phase }

end Diagnostic

end Quill
