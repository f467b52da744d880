import Quill.Decimal.Literal
import Quill.Expr
import Quill.Parser
import Quill.Parser.Grammar

/-!
# Reading expressions

An expression is an operand followed by tails: operators with their right operands, subscripts,
argument lists and assignments.  A tail is taken as long as it binds more tightly than the place
of the expression asks for.  Each form is a function of the reader `sub` for the expressions inside
it; `exprWithin` ties them together.
-/

namespace Quill

/-- The literal or name that a single token stands for. -/
def Expr.ofToken (token : Token) : Except Diagnostic Expr :=
  match token.kind with
  | .intLiteral =>
    match Decimal.intLiteral? token.value with
    | some value => .ok (.int value token.span)
    | none => .error (.of (.invalidNumber token.value) token.span)
  | .floatLiteral => .ok (.float (Decimal.floatLiteral token.value) token.span)
  | .stringLiteral => .ok (.string token.value token.span)
  | .trueWord => .ok (.bool true token.span)
  | .falseWord => .ok (.bool false token.span)
  | .identifier => .ok (.name token.value token.span)
  | _ => .error (.of (.unexpectedToken token.description) token.span)

namespace Parse

/-- A reader for expressions whose tails all bind more tightly than a given level. -/
abbrev ExprReader := BindingPower → Parse Expr

/-- Reads a literal or a name. -/
def atom : Parse Expr := do
  match Expr.ofToken (← current) with
  | .ok expr =>
    let _ ← advance
    return expr
  | .error diagnostic => throw diagnostic

/-- Reads the elements of an array up to its closing bracket; commas between them may be left
out. -/
def elements (sub : ExprReader) : Nat → Parse (List Expr)
  | 0 => unexpected
  | bound + 1 => do
    let kind ← currentKind
    if kind == .closeBracket || kind == .endOfInput then
      return []
    else
      let first ← sub .lowest
      let _ ← accept .comma
      let others ← elements sub bound
      return first :: others

/-- Reads an array literal; the token in front is taken for its opening bracket. -/
def array (sub : ExprReader) : Parse Expr := do
  let opening ← advance
  let items ← bounded (elements sub)
  let closing ← expect .closeBracket
  return .array items (opening.span.spanning closing.span)

/-- Reads an expression in parentheses; the token in front is taken for the opening one. -/
def group (sub : ExprReader) : Parse Expr := do
  let _ ← advance
  let expr ← sub .lowest
  let _ ← expect .closeParen
  return expr

/-- Reads an operator and its right operand, whose own operators bind more tightly than
`power`. -/
def binary (sub : ExprReader) (left : Expr) (power : BindingPower) : Parse Expr := do
  let token ← advance
  match Operator.ofTokenKind? token.kind with
  | some operator =>
    let right ← sub power
    return .binary operator left right (left.span.spanning right.span)
  | none => throw (.of (.unexpectedToken token.description) token.span)

/-- Reads the value assigned to an expression. -/
def assignment (sub : ExprReader) (target : Expr) : Parse Expr := do
  let _ ← advance
  let value ← sub .lowest
  return .assign target value (target.span.spanning value.span)

/-- Reads a subscript of an expression. -/
def subscript (sub : ExprReader) (base : Expr) : Parse Expr := do
  let _ ← advance
  let index ← sub .lowest
  let closing ← expect .closeBracket
  return .subscript base index (base.span.spanning closing.span)

/-- Reads one argument, and further ones after commas. -/
def arguments (sub : ExprReader) : Nat → Parse (List Expr)
  | 0 => unexpected
  | bound + 1 => do
    let first ← sub .lowest
    if ← accept .comma then
      let others ← arguments sub bound
      return first :: others
    else
      return [first]

/-- Reads the arguments of a call; only a name can be called. -/
def call (sub : ExprReader) (callee : Expr) : Parse Expr := do
  match callee with
  | .name ident span =>
    let _ ← advance
    let items ←
      if (← currentKind) == .closeParen then pure [] else bounded (arguments sub)
    let closing ← expect .closeParen
    return .call ident span items (span.spanning closing.span)
  | _ => unexpected

/-- Reads an operand of a given form. -/
def operand (sub : ExprReader) : OperandForm → Parse Expr
  | .atom => atom
  | .array => array sub
  | .group => group sub

/-- Reads a tail of a given form after an expression. -/
def tail (sub : ExprReader) (left : Expr) (power : BindingPower) : TailForm → Parse Expr
  | .binary => binary sub left power
  | .assignment => assignment sub left
  | .subscript => subscript sub left
  | .call => call sub left

/-- Reads tails as long as they bind more tightly than `level`.  A parenthesis goes on with a bare
name only. -/
def tails (grammar : Grammar) (sub : ExprReader) (level : BindingPower) :
    Nat → Expr → Parse Expr
  | 0, _ => unexpected
  | bound + 1, left => do
    let kind ← currentKind
    match grammar.tail kind with
    | none => return left
    | some (power, form) =>
      if power ≤ level || (kind == .openParen && !left.isName) then
        return left
      else
        let longer ← tail sub left power form
        tails grammar sub level bound longer

/-- Reads an expression that is nested less deeply than the bound. -/
def exprWithin (grammar : Grammar) : Nat → ExprReader
  | 0, _ => unexpected
  | bound + 1, level => do
    let token ← current
    match grammar.operand token.kind with
    | none => throw (.of .expectedExpression token.span)
    | some form =>
      let sub := exprWithin grammar bound
      let left ← operand sub form
      bounded fun steps => tails grammar sub level steps left

/-- Reads an expression whose tails all bind more tightly than `level`. -/
def expr (grammar : Grammar) : ExprReader := fun level =>
  bounded fun bound => exprWithin grammar bound level

end Parse

end Quill
