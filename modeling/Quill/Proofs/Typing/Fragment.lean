import Quill.Proofs.Parts
import Quill.Proofs.ReturnPaths

/-!
# Programs that bind names before they use them

Blocks have no frames of their own, so whether a name is bound when a statement runs depends on the
statements that ran before it, in whatever block.  The programs described here are those in which
the text tells it: a name that a function binds is mentioned only after its declaration in the same
list of statements, or below a later statement of that list, and the variable of a counting loop
only inside the body of such a loop.
-/

namespace Quill

namespace Expr

/-- Whether those of the names that the expression mentions are bound. -/
def wellScoped (names bound : List String) (expr : Expr) : Bool :=
  expr.mentions.all fun name => !names.contains name || bound.contains name

theorem wellScoped_iff {names bound : List String} {expr : Expr} :
    expr.wellScoped names bound = true ↔ ∀ name ∈ expr.mentions, name ∈ names → name ∈ bound := by
  simp only [wellScoped, List.all_eq_true, Bool.or_eq_true, Bool.not_eq_true', List.contains_eq_mem,
    decide_eq_false_iff_not, decide_eq_true_eq]
  exact forall₂_congr fun name _ => Decidable.imp_iff_not_or.symm

end Expr

namespace Stmt

mutual

/-- Whether those of the names that the statement mentions are bound where it mentions them: by the
statements before it, by a declaration earlier in the same list or by a counting loop around. -/
def wellScoped (names bound : List String) : Stmt → Bool
  | function _ => true
  | ret value _ | bind _ value _ | expr value => value.wellScoped names bound
  | branch ⟨condition, body, _⟩ others otherwise =>
    condition.wellScoped names bound && wellScopedBlock names bound body &&
      wellScopedArms names bound others && wellScopedLast names bound otherwise
  | loop condition body _ => condition.wellScoped names bound && wellScopedBlock names bound body
  | range counter lower upper body _ =>
    lower.wellScoped names bound && upper.wellScoped names bound &&
      wellScopedBlock names (counter :: bound) body
  | block inner => wellScopedBlock names bound inner

/-- The same for the arms of a branch. -/
def wellScopedArms (names bound : List String) : List (Arm Stmt) → Bool
  | [] => true
  | ⟨condition, body, _⟩ :: others =>
    condition.wellScoped names bound && wellScopedBlock names bound body &&
      wellScopedArms names bound others

/-- The same for the last block of a branch. -/
def wellScopedLast (names bound : List String) : Option (Block Stmt) → Bool
  | some inner => wellScopedBlock names bound inner
  | none => true

/-- The same for a block. -/
def wellScopedBlock (names bound : List String) : Block Stmt → Bool
  | ⟨body, _⟩ => wellScopedAll names bound body

/-- The same for statements in a row: each may mention what those before it declare. -/
def wellScopedAll (names bound : List String) : List Stmt → Bool
  | [] => true
  | stmt :: stmts =>
    stmt.wellScoped names bound && wellScopedAll names (stmt.bound?.toList ++ bound) stmts

end

end Stmt

namespace FnDecl

/-- The names of the parameters. -/
def parameterNames (decl : FnDecl Stmt) : List String :=
  decl.parameters.map (·.name)

/-- The statements that a call of the function may run, apart from those of other functions. -/
def parts (decl : FnDecl Stmt) : List Stmt :=
  Stmt.partsOfBlock decl.body

/-- The names that are declared in the body. -/
def declaredNames (decl : FnDecl Stmt) : List String :=
  decl.parts.filterMap Stmt.bound?

/-- The variables of the counting loops in the body. -/
def counters (decl : FnDecl Stmt) : List String :=
  decl.parts.filterMap Stmt.counter?

/-- All names that a call of the function may bind. -/
def names (decl : FnDecl Stmt) : List String :=
  decl.parameterNames ++ decl.declaredNames ++ decl.counters

/-- The function declares no other, binds its names before it mentions them, keeps the variables of
counting loops apart from its other names and, if it has a result, does not rely on a loop to give
it. -/
structure BindsFirst (decl : FnDecl Stmt) : Prop where
  flat : ∀ part ∈ decl.parts, part.decl? = none
  wellScoped : Stmt.wellScopedBlock decl.names decl.parameterNames decl.body = true
  apart : ∀ counter ∈ decl.counters, counter ∉ decl.parameterNames ∧ counter ∉ decl.declaredNames
  loops : decl.returnType = .void ∨ ∀ part ∈ decl.parts, part.loopFallsThrough = true

end FnDecl

instance (decl : FnDecl Stmt) : Decidable decl.BindsFirst :=
  decidable_of_iff
    ((∀ part ∈ decl.parts, part.decl? = none) ∧
      Stmt.wellScopedBlock decl.names decl.parameterNames decl.body = true ∧
      (∀ counter ∈ decl.counters, counter ∉ decl.parameterNames ∧ counter ∉ decl.declaredNames) ∧
      (decl.returnType = .void ∨ ∀ part ∈ decl.parts, part.loopFallsThrough = true))
    ⟨fun ⟨h₁, h₂, h₃, h₄⟩ => ⟨h₁, h₂, h₃, h₄⟩, fun ⟨h₁, h₂, h₃, h₄⟩ => ⟨h₁, h₂, h₃, h₄⟩⟩

/-- The statement declares a function that binds its names before it mentions them. -/
def Stmt.BindsFirst : Stmt → Prop
  | .function decl => decl.BindsFirst
  | _ => False

theorem Stmt.BindsFirst.decl {stmt : Stmt} (h : stmt.BindsFirst) :
    ∃ decl, stmt = .function decl ∧ decl.BindsFirst := by
  cases stmt with
  | function decl => exact ⟨decl, rfl, h⟩
  | _ => exact h.elim

instance : (stmt : Stmt) → Decidable stmt.BindsFirst
  | .function decl => inferInstanceAs (Decidable decl.BindsFirst)
  | .ret _ _ | .bind _ _ _ | .expr _ | .branch _ _ _ | .loop _ _ _ | .range _ _ _ _ _ | .block _ =>
    inferInstanceAs (Decidable False)

/-- The program consists of functions that bind their names before they mention them. -/
def BindsFirst (program : List Stmt) : Prop :=
  ∀ stmt ∈ program, stmt.BindsFirst

instance (program : List Stmt) : Decidable (BindsFirst program) :=
  inferInstanceAs (Decidable (∀ stmt ∈ program, stmt.BindsFirst))

end Quill
