import Quill.Diagnostic
import Quill.Expr
import Quill.Scope

/-!
# Types of expressions

Every expression has a type, also one with mistakes in it: the mistakes are reported and a type is
assumed.  Looking at an expression never changes the scope.
-/

namespace Quill

/-- What is found about an expression: its place, its type and the problems in it, in the order of
reading. -/
structure Typed where
  span : Span
  type : Ty
  problems : List Diagnostic
  deriving DecidableEq, Inhabited

/-- The complaint about one type in the place of another. -/
def typeMismatch (expected received : Ty) (span : Span) : List Diagnostic :=
  if received = expected then [] else [.of (.incorrectType expected received) span]

namespace Typed

/-- The problems of an expression that should have a given type, with the complaint at `span` if it
has another. -/
def expecting (typed : Typed) (expected : Ty) (span : Span) : List Diagnostic :=
  typed.problems ++ typeMismatch expected typed.type span

/-- An array literal.  All elements should have the type of the first; without elements the element
type is void. -/
def array (elements : List Typed) (span : Span) : Typed :=
  match elements with
  | [] => ⟨span, .array .void, []⟩
  | first :: others =>
    ⟨span, .array first.type,
      first.problems ++ others.flatMap fun other => other.expecting first.type other.span⟩

/-- A name. -/
def name (found : Option Ty) (ident : String) (span : Span) : Typed :=
  match found with
  | some type => ⟨span, type, []⟩
  | none => ⟨span, .void, [.of (.doesNotExist ident) span]⟩

/-- The complaints about the arguments of a function with the given parameters. -/
def argumentProblems (parameters : List Ty) (arguments : List Typed) (span : Span) :
    List Diagnostic :=
  if parameters.length ≠ arguments.length then
    [.of (.incorrectArgumentCount parameters.length arguments.length) span]
  else
    (parameters.zip arguments).flatMap fun pair =>
      typeMismatch pair.1 pair.2.type pair.2.span

/-- A call. -/
def call (found : Option Ty) (callee : String) (calleeSpan : Span) (arguments : List Typed)
    (span : Span) : Typed :=
  let inner := arguments.flatMap (·.problems)
  match found with
  | some (.function parameters result) =>
    ⟨span, result, inner ++ argumentProblems parameters arguments span⟩
  | some (.variadic result) => ⟨span, result, inner⟩
  | some _ => ⟨span, .void, inner ++ [.of (.cannotExecute callee) calleeSpan]⟩
  | none => ⟨span, .void, inner ++ [.of (.doesNotExist callee) calleeSpan]⟩

/-- A subscript: of an array, or of a string. -/
def subscript (base index : Typed) (span : Span) : Typed :=
  let inner := base.problems ++ index.expecting .int index.span
  match base.type with
  | .array element => ⟨span, element, inner⟩
  | .string => ⟨span, .string, inner⟩
  | other => ⟨span, other, inner ++ [.of (.cannotIndexInto other) span]⟩

/-- The complaint about an operand that should be a number. -/
def numberProblems (operand : Typed) : List Diagnostic :=
  if operand.type.isNumeric then [] else [.of .numericValuesOnly operand.span]

/-- An operator between two operands.  Equality takes all types; addition takes numbers, a text and
anything, or an array and a further element; the others take numbers only. -/
def binary (operator : Operator) (left right : Typed) (span : Span) : Typed :=
  let inner := left.problems ++ right.problems
  if operator.isEquality then
    ⟨span, .bool, inner⟩
  else if operator = .add ∧ ¬(left.type.isNumeric ∧ right.type.isNumeric) then
    if left.type = .string ∨ right.type = .string then
      ⟨span, .string, inner⟩
    else if left.type = .array right.type then
      ⟨span, left.type, inner⟩
    else
      ⟨span, .int, inner ++ [.of (.invalidOperator operator) span]⟩
  else
    let problems := inner ++ left.numberProblems ++ right.numberProblems
    if operator.isOrdering then
      ⟨span, .bool, problems⟩
    else if (left.type.isNumeric ∧ right.type.isNumeric)
        ∧ (left.type = .float ∨ right.type = .float) then
      ⟨span, .float, problems⟩
    else
      ⟨span, .int, problems⟩

/-- An assignment to a target that can be assigned to. -/
def assign (target value : Typed) (span : Span) : Typed :=
  ⟨span, .void,
    target.problems ++ value.problems ++ typeMismatch target.type value.type span⟩

/-- An assignment to a target that cannot be assigned to; the target is not looked at further. -/
def assignToOther (targetSpan : Span) (value : Typed) (span : Span) : Typed :=
  ⟨span, .void, .of .invalidAssignmentTarget targetSpan :: value.problems⟩

end Typed

mutual

/-- The type of an expression and the problems in it. -/
def infer (scope : Scope Ty) : Expr → Typed
  | .int _ span => ⟨span, .int, []⟩
  | .float _ span => ⟨span, .float, []⟩
  | .string _ span => ⟨span, .string, []⟩
  | .bool _ span => ⟨span, .bool, []⟩
  | .array elements span => .array (inferAll scope elements) span
  | .name ident span => .name (scope.get? ident) ident span
  | .call callee calleeSpan arguments span =>
    .call (scope.get? callee) callee calleeSpan (inferAll scope arguments) span
  | .subscript base index span => .subscript (infer scope base) (infer scope index) span
  | .binary operator left right span =>
    .binary operator (infer scope left) (infer scope right) span
  | .assign target value span =>
    if target.isAssignable then
      .assign (infer scope target) (infer scope value) span
    else
      .assignToOther target.span (infer scope value) span

/-- The types of expressions and the problems in them. -/
def inferAll (scope : Scope Ty) : List Expr → List Typed
  | [] => []
  | expr :: exprs => infer scope expr :: inferAll scope exprs

end

end Quill
