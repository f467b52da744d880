import Quill.ReturnPath

/-!
# Parts of programs

The parts of an expression are its subexpressions, itself included.  The parts of a statement are
the statements that run when it runs: itself and those in its blocks, but not those in the bodies of
functions declared there, which run only when they are called.  Properties of a whole tree are
stated as properties of its parts.
-/

namespace Quill

namespace Expr

mutual

/-- The expression and all expressions in it. -/
def parts : Expr → List Expr
  | int value span => [int value span]
  | float value span => [float value span]
  | string value span => [string value span]
  | bool value span => [bool value span]
  | name ident span => [name ident span]
  | array elements span => array elements span :: partsAll elements
  | call callee calleeSpan arguments span =>
    call callee calleeSpan arguments span :: partsAll arguments
  | subscript base index span => subscript base index span :: (base.parts ++ index.parts)
  | binary operator left right span =>
    binary operator left right span :: (left.parts ++ right.parts)
  | assign target value span => assign target value span :: (target.parts ++ value.parts)

/-- All expressions in a list of them. -/
def partsAll : List Expr → List Expr
  | [] => []
  | expr :: exprs => expr.parts ++ partsAll exprs

end

/-- What the expression assigns to, if it is an assignment. -/
def target? : Expr → Option Expr
  | assign target _ _ => some target
  | _ => none

/-- The name that is read, assigned to or called by the expression itself. -/
def mention? : Expr → Option String
  | name ident _ => some ident
  | call callee _ _ _ => some callee
  | _ => none

/-- The names in an expression, in the order of reading. -/
def mentions (expr : Expr) : List String :=
  expr.parts.filterMap mention?

/-- The names in a list of expressions. -/
def mentionsAll (exprs : List Expr) : List String :=
  (partsAll exprs).filterMap mention?

/-- Whether every assignment in the expression has a target that can be assigned to. -/
def assignsProperly (expr : Expr) : Bool :=
  (expr.parts.filterMap target?).all isAssignable

/-- Whether every assignment in the expressions has a target that can be assigned to. -/
def assignProperly (exprs : List Expr) : Bool :=
  ((partsAll exprs).filterMap target?).all isAssignable

section Lemmas

variable {callee : String} {operator : Operator} {span calleeSpan : Span}
  {base index left right target value : Expr} {elements arguments : List Expr}

@[simp] theorem mentions_name {ident : String} : (name ident span).mentions = [ident] := rfl

@[simp] theorem mentions_array :
    (array elements span).mentions = mentionsAll elements := rfl

@[simp] theorem mentions_call :
    (call callee calleeSpan arguments span).mentions = callee :: mentionsAll arguments := rfl

@[simp] theorem mentions_subscript :
    (subscript base index span).mentions = base.mentions ++ index.mentions := by
  simp [mentions, parts, mention?, List.filterMap_cons]

@[simp] theorem mentions_binary :
    (binary operator left right span).mentions = left.mentions ++ right.mentions := by
  simp [mentions, parts, mention?, List.filterMap_cons]

@[simp] theorem mentions_assign :
    (assign target value span).mentions = target.mentions ++ value.mentions := by
  simp [mentions, parts, mention?, List.filterMap_cons]

@[simp] theorem mentionsAll_nil : mentionsAll [] = [] := rfl

@[simp] theorem mentionsAll_cons :
    mentionsAll (value :: elements) = value.mentions ++ mentionsAll elements := by
  simp [mentionsAll, mentions, partsAll]

theorem mem_mentionsAll {exprs : List Expr} {name : String} :
    name ∈ mentionsAll exprs ↔ ∃ expr ∈ exprs, name ∈ expr.mentions := by
  induction exprs with
  | nil => simp
  | cons expr exprs ih => simp [ih]

@[simp] theorem assignsProperly_array :
    (array elements span).assignsProperly = assignProperly elements := rfl

@[simp] theorem assignsProperly_call :
    (call callee calleeSpan arguments span).assignsProperly = assignProperly arguments := rfl

@[simp] theorem assignsProperly_subscript :
    (subscript base index span).assignsProperly
      = (base.assignsProperly && index.assignsProperly) := by
  simp [assignsProperly, parts, target?]

@[simp] theorem assignsProperly_binary :
    (binary operator left right span).assignsProperly
      = (left.assignsProperly && right.assignsProperly) := by
  simp [assignsProperly, parts, target?]

@[simp] theorem assignsProperly_assign :
    (assign target value span).assignsProperly
      = (target.isAssignable && target.assignsProperly && value.assignsProperly) := by
  simp [assignsProperly, parts, target?, Bool.and_assoc]

@[simp] theorem assignProperly_nil : assignProperly [] = true := rfl

@[simp] theorem assignProperly_cons :
    assignProperly (value :: elements) = (value.assignsProperly && assignProperly elements) := by
  simp [assignProperly, assignsProperly, partsAll]

end Lemmas

end Expr

namespace Stmt

mutual

/-- The statement and all statements in its blocks. -/
def parts : Stmt → List Stmt
  | function decl => [function decl]
  | ret value span => [ret value span]
  | bind name value span => [bind name value span]
  | expr value => [expr value]
  | branch ⟨condition, body, span⟩ others otherwise =>
    branch ⟨condition, body, span⟩ others otherwise ::
      (partsOfBlock body ++ partsOfArms others ++ partsOfLast otherwise)
  | loop condition body span => loop condition body span :: partsOfBlock body
  | range counter lower upper body span =>
    range counter lower upper body span :: partsOfBlock body
  | block inner => block inner :: partsOfBlock inner

/-- All statements in the blocks of arms. -/
def partsOfArms : List (Arm Stmt) → List Stmt
  | [] => []
  | ⟨_, body, _⟩ :: arms => partsOfBlock body ++ partsOfArms arms

/-- All statements in the last block of a branch. -/
def partsOfLast : Option (Block Stmt) → List Stmt
  | some inner => partsOfBlock inner
  | none => []

/-- All statements in a block. -/
def partsOfBlock : Block Stmt → List Stmt
  | ⟨body, _⟩ => partsOfAll body

/-- All statements in a list of them. -/
def partsOfAll : List Stmt → List Stmt
  | [] => []
  | stmt :: stmts => stmt.parts ++ partsOfAll stmts

end

theorem mem_partsOfAll {stmts : List Stmt} {part : Stmt} :
    part ∈ partsOfAll stmts ↔ ∃ stmt ∈ stmts, part ∈ stmt.parts := by
  induction stmts with
  | nil => simp [partsOfAll]
  | cons stmt stmts ih => simp [partsOfAll, ih]

theorem eq_function_of_decl? {stmt : Stmt} {decl : FnDecl Stmt} (h : stmt.decl? = some decl) :
    stmt = .function decl := by
  cases stmt with
  | function other => exact congrArg _ (Option.some.inj h)
  | _ => simp [decl?] at h

/-- The expressions that the statement itself evaluates. -/
def exprs : Stmt → List Expr
  | function _ | block _ => []
  | ret value _ | bind _ value _ | expr value => [value]
  | branch first others _ => first.condition :: others.map (·.condition)
  | loop condition _ _ => [condition]
  | range _ lower upper _ _ => [lower, upper]

/-- Whether the statement is a return. -/
def isReturn : Stmt → Bool
  | ret _ _ => true
  | _ => false

/-- The name that the statement binds for the statements after it. -/
def bound? : Stmt → Option String
  | bind name _ _ => some name
  | _ => none

/-- The variable of a counting loop. -/
def counter? : Stmt → Option String
  | range counter _ _ _ _ => some counter
  | _ => none

/-- The body of a loop. -/
def loopBody? : Stmt → Option (Block Stmt)
  | loop _ body _ | range _ _ _ body _ => some body
  | _ => none

end Stmt

end Quill
