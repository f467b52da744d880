import Quill.Expr
import Quill.Ty

/-!
# Statements

The tree of a statement.  The parts that hold further statements (blocks, arms of a branch and
function declarations) are structures over the type of the statements in them, which `Stmt` then
ties to itself.
-/

namespace Quill

/-- Statements between curly brackets. -/
structure Block (σ : Type) where
  body : List σ
  span : Span
  deriving Inhabited

/-- One guarded block of a branch; its span ends with the condition. -/
structure Arm (σ : Type) where
  condition : Expr
  body : Block σ
  span : Span
  deriving Inhabited

/-- A name that a function takes, with its declared type. -/
structure Parameter where
  name : String
  type : Ty
  deriving DecidableEq, Inhabited

/-- Which declaration a function comes from: the number of the source it stands in and the offset
of its first word there. -/
structure FnId where
  source : Nat
  offset : Nat
  deriving DecidableEq, Inhabited

/-- A function declaration; its span ends with the return type, or with the parameter list if no
return type is written. -/
structure FnDecl (σ : Type) where
  id : FnId
  name : String
  parameters : List Parameter
  returnType : Ty
  body : Block σ
  span : Span
  deriving Inhabited

/-- The type of a declared function. -/
def FnDecl.signature {σ : Type} (decl : FnDecl σ) : Ty :=
  .function (decl.parameters.map (·.type)) decl.returnType

/-- A statement with its spans. -/
inductive Stmt where
  | function (decl : FnDecl Stmt)
  | ret (value : Expr) (span : Span)
  | bind (name : String) (value : Expr) (span : Span)
  | expr (value : Expr)
  /-- The first arm whose condition holds is run, else the last block if there is one. -/
  | branch (first : Arm Stmt) (others : List (Arm Stmt)) (otherwise : Option (Block Stmt))
  | loop (condition : Expr) (body : Block Stmt) (span : Span)
  /-- Counts from the lower bound up to, and not including, the upper one. -/
  | range (counter : String) (lower upper : Expr) (body : Block Stmt) (span : Span)
  | block (inner : Block Stmt)
  deriving Inhabited

namespace Stmt

/-- The text that the statement was read from. -/
def span : Stmt → Span
  | function decl => decl.span
  | ret _ span | bind _ _ span | loop _ _ span | range _ _ _ _ span => span
  | expr value => value.span
  | branch first _ _ => first.span
  | block inner => inner.span

/-- The declaration, if the statement is one. -/
def decl? : Stmt → Option (FnDecl Stmt)
  | function decl => some decl
  | _ => none

end Stmt

end Quill
