import Quill.Builtin
import Quill.Inference
import Quill.ReturnPath

/-!
# The type checker

The checker goes through a program once and records what it finds wrong.  The functions at the top
of the program are declared beforehand, so that they can call each other in any order; those inside
a body are declared where they stand.  Blocks share the frame of the function around them.
-/

namespace Quill

/-- The state of the checker: the types of the names in scope, and the problems found so far, in
order. -/
structure Checker where
  scope : Scope Ty
  recorded : List Diagnostic

/-- An action of the checker.  Only a broken scope could stop it. -/
abbrev Check := EStateM Fault Checker

namespace Checker

/-- The checker before it has seen anything: the built-in functions are in scope. -/
def start : Checker where
  scope := .ofGlobals (Builtin.all.map fun builtin => (builtin.name, builtin.signature))
  recorded := []

instance : Inhabited Checker := ⟨start⟩

/-- Records problems. -/
def record (checker : Checker) (problems : List Diagnostic) : Checker :=
  { checker with recorded := checker.recorded ++ problems }

/-- Binds a name in the innermost frame. -/
def insert (checker : Checker) (name : String) (type : Ty) : Checker :=
  { checker with scope := checker.scope.insert name type }

/-- Records a complaint at `span` if the innermost frame binds the name already. -/
def complainIfBound (checker : Checker) (name : String) (problem : Problem) (span : Span) :
    Checker :=
  match checker.scope.getLocal? name with
  | some _ => checker.record [.of problem span]
  | none => checker

/-- Declares one function at the top of a program; a name can be declared once. -/
def declare (checker : Checker) (decl : FnDecl Stmt) : Checker :=
  match checker.scope.getLocal? decl.name with
  | some _ => checker.record [.of (.functionAlreadyDeclared decl.name) decl.span]
  | none => checker.insert decl.name decl.signature

/-- Declares the functions at the top of a program. -/
def declareFunctions (checker : Checker) (program : List Stmt) : Checker :=
  (program.filterMap Stmt.decl?).foldl declare checker

/-- Declares a function inside a body. -/
def declareLocal (checker : Checker) (decl : FnDecl Stmt) : Checker :=
  (checker.complainIfBound decl.name (.alreadyInScope decl.name) decl.span).insert
    decl.name decl.signature

/-- Binds the parameters of a function. -/
def bindParameters (checker : Checker) (decl : FnDecl Stmt) : Checker :=
  decl.parameters.foldl
    (fun checker parameter =>
      (checker.complainIfBound parameter.name (.alreadyInScope parameter.name) decl.span).insert
        parameter.name parameter.type)
    checker

/-- Records the problems in an expression. -/
def expr (checker : Checker) (expr : Expr) : Checker :=
  checker.record (infer checker.scope expr).problems

/-- Records the problems in an expression that should have a given type. -/
def expect (checker : Checker) (expected : Ty) (expr : Expr) (span : Span) : Checker :=
  checker.record ((infer checker.scope expr).expecting expected span)

/-- Checks a return: it must stand in a function and give a value of its return type. -/
def ret (checker : Checker) (value : Expr) (span : Span) : Checker :=
  let typed := infer checker.scope value
  let complaint :=
    match checker.scope.context with
    | some expected => typeMismatch expected typed.type span
    | none => [.of .cannotReturnHere span]
  checker.record (typed.problems ++ complaint)

/-- Checks the declaration of a variable. -/
def bind (checker : Checker) (name : String) (value : Expr) (span : Span) : Checker :=
  let checked := checker.complainIfBound name (.alreadyInScope name) span
  let typed := infer checked.scope value
  (checked.record typed.problems).insert name typed.type

/-- Checks the bounds of a counting loop and binds its variable. -/
def rangeHead (checker : Checker) (counter : String) (lower upper : Expr) : Checker :=
  ((checker.expect .int lower lower.span).expect .int upper upper.span).insert counter .int

end Checker

namespace Check

/-- A change of the checker that cannot fail. -/
def change (f : Checker → Checker) : Check Unit := fun checker => .ok () (f checker)

/-- Checks the body of a function in a frame of its own and pops that frame again, also if checking
was stopped. -/
def inFrame (returnType : Ty) (action : Check Unit) : Check Unit := fun checker =>
  let scope := checker.scope.push checker.scope.current (some returnType)
  let leave (inner : Checker) (result : Except Fault Unit) : EStateM.Result Fault Checker Unit :=
    match inner.scope.pop, result with
    | .ok outer, .ok () => .ok () { inner with scope := outer }
    | .ok outer, .error fault => .error fault { inner with scope := outer }
    | .error fault, _ => .error fault inner
  match action { checker with scope := scope } with
  | .ok _ inner => leave inner (.ok ())
  | .error fault inner => leave inner (.error fault)

mutual

/-- Checks a statement. -/
def stmt : Stmt → Check Unit
  | .function decl => do
    change fun checker =>
      if checker.scope.current = Scope.global then checker else checker.declareLocal decl
    function decl
  | .ret value span => change (·.ret value span)
  | .bind name value span => change (·.bind name value span)
  | .expr value => change (·.expr value)
  | .branch first others otherwise => do
    arm first
    arms others
    lastBlock otherwise
  | .loop condition body span => do
    change (·.expect .bool condition span)
    block body
  | .range counter lower upper body _ => do
    change (·.rangeHead counter lower upper)
    block body
  | .block inner => block inner

/-- Checks the body of a function. -/
def function : FnDecl Stmt → Check Unit
  | ⟨id, name, parameters, returnType, body, span⟩ => do
    let decl : FnDecl Stmt := ⟨id, name, parameters, returnType, body, span⟩
    inFrame returnType do
      change (·.bindParameters decl)
      block body
    change (·.record decl.pathProblems)

/-- Checks an arm of a branch. -/
def arm : Arm Stmt → Check Unit
  | ⟨condition, body, span⟩ => do
    change (·.expect .bool condition span)
    block body

/-- Checks the further arms of a branch. -/
def arms : List (Arm Stmt) → Check Unit
  | [] => pure ()
  | first :: others => do
    arm first
    arms others

/-- Checks the last block of a branch. -/
def lastBlock : Option (Block Stmt) → Check Unit
  | some inner => block inner
  | none => pure ()

/-- Checks a block. -/
def block : Block Stmt → Check Unit
  | ⟨body, _⟩ => stmts body

/-- Checks statements in a row. -/
def stmts : List Stmt → Check Unit
  | [] => pure ()
  | first :: others => do
    stmt first
    stmts others

end

/-- Checks a whole program. -/
def program (program : List Stmt) : Check Unit := do
  change (·.declareFunctions program)
  stmts program

end Check

end Quill
