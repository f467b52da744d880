import Quill.Diagnostic
import Quill.Stmt

/-!
# Return paths

Whether a run through statements must end in a return.  Loops are judged by their bodies, as if
every loop ran at least once; a branch returns only if all its arms do and it has a last block.
-/

namespace Quill

/-- How a run through statements can end. -/
inductive ReturnPath where
  /-- It ends in a return. -/
  | returns
  /-- It may reach the end of the statements. -/
  | mayFallThrough
  deriving DecidableEq, Inhabited

namespace ReturnPath

/-- Of two ways that a run can take, both must return. -/
def both : ReturnPath → ReturnPath → ReturnPath
  | returns, returns => returns
  | _, _ => mayFallThrough

/-- Of two parts that a run goes through one after the other, one must return. -/
def either : ReturnPath → ReturnPath → ReturnPath
  | mayFallThrough, mayFallThrough => mayFallThrough
  | _, _ => returns

mutual

/-- The return path of a statement. -/
def ofStmt : Stmt → ReturnPath
  | .ret _ _ => returns
  | .bind _ _ _ | .expr _ | .function _ => mayFallThrough
  | .branch first others otherwise => both (ofArm first) (ofArms others (ofOtherwise otherwise))
  | .loop _ body _ => ofBlock body
  | .range _ _ _ body _ => ofBlock body
  | .block inner => ofBlock inner

/-- The return path of an arm of a branch, once it is taken. -/
def ofArm : Arm Stmt → ReturnPath
  | ⟨_, body, _⟩ => ofBlock body

/-- The return path of the arms of a branch and of what follows them. -/
def ofArms : List (Arm Stmt) → ReturnPath → ReturnPath
  | [], last => last
  | arm :: arms, last => both (ofArm arm) (ofArms arms last)

/-- The return path of the last block of a branch. -/
def ofOtherwise : Option (Block Stmt) → ReturnPath
  | some block => ofBlock block
  | none => mayFallThrough

/-- The return path of a block. -/
def ofBlock : Block Stmt → ReturnPath
  | ⟨body, _⟩ => ofStmts body

/-- The return path of statements in a row. -/
def ofStmts : List Stmt → ReturnPath
  | [] => mayFallThrough
  | stmt :: stmts => either (ofStmt stmt) (ofStmts stmts)

end

end ReturnPath

/-- The complaint about a function that has a result and may reach the end of its body. -/
def FnDecl.pathProblems (decl : FnDecl Stmt) : List Diagnostic :=
  if decl.returnType ≠ .void ∧ ReturnPath.ofBlock decl.body = .mayFallThrough then
    [.of .notAllPathsReturn decl.span]
  else
    []

end Quill
