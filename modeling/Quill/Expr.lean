import Quill.Operator

/-!
# Expressions

The tree of an expression.  Every node carries the span of the text it was read from.
-/

namespace Quill

/-- An expression with its spans. -/
inductive Expr where
  | int (value : Int64) (span : Span)
  | float (value : Float) (span : Span)
  | string (value : String) (span : Span)
  | bool (value : Bool) (span : Span)
  | array (elements : List Expr) (span : Span)
  | name (ident : String) (span : Span)
  /-- A call of a named function; only names can be called. -/
  | call (callee : String) (calleeSpan : Span) (arguments : List Expr) (span : Span)
  | subscript (base index : Expr) (span : Span)
  | binary (operator : Operator) (left right : Expr) (span : Span)
  | assign (target value : Expr) (span : Span)
  deriving Inhabited

namespace Expr

/-- The text that the expression was read from. -/
def span : Expr → Span
  | int _ span | float _ span | string _ span | bool _ span | array _ span | name _ span
  | call _ _ _ span | subscript _ _ span | binary _ _ _ span | assign _ _ span => span

/-- Whether the expression can be assigned to: a name, or a subscript of such an expression. -/
def isAssignable : Expr → Bool
  | name _ _ => true
  | subscript base _ _ => base.isAssignable
  | _ => false

/-- Whether the expression is a bare name, and so can be called. -/
def isName : Expr → Bool
  | name _ _ => true
  | _ => false

end Expr

end Quill
