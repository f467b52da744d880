import Quill.Builtin
import Quill.Proofs.Parts

/-!
# Names that are bound before they are mentioned

Blocks have no frames of their own, so a declaration in a block holds for the statements behind the
block, but only if control came by.  The text of a program covers a name if on every way to a
mention of it there is a declaration: in front of it in the same body, or in front of the
declaration of the function that the mention stands in.  Built-in functions and the functions at
the top of a program are there from the start, and so are variables that are declared at the top
before any function of the program is mentioned.
-/

namespace Quill

/-- Whether the name is bound wherever the expression mentions it, given whether it is bound. -/
def Expr.covers (name : String) (bound : Bool) (expr : Expr) : Bool :=
  bound || !expr.mentions.contains name

namespace Stmt

/-- The name that the statement itself binds in the frame in which it runs. -/
def declared? : Stmt → Option String
  | function decl => some decl.name
  | bind name _ _ => some name
  | range counter _ _ _ _ => some counter
  | _ => none

/-- The names that are bound in the frame in which statements run, if all of them run. -/
def declaredBy (stmts : List Stmt) : List String :=
  (partsOfAll stmts).filterMap declared?

mutual

/-- Whether the name is bound behind the statement, whichever way it was run to its end. -/
def binds (name : String) : Stmt → Bool
  | function decl => decl.name == name
  | bind other _ _ => other == name
  -- A return has no end to come to.
  | ret _ _ => true
  | expr _ | loop _ _ _ | range _ _ _ _ _ => false
  | branch ⟨_, body, _⟩ others otherwise =>
    bindsBlock name body && bindsArms name others && bindsLast name otherwise
  | block inner => bindsBlock name inner

/-- Whether all arms of a branch bind the name. -/
def bindsArms (name : String) : List (Arm Stmt) → Bool
  | [] => true
  | ⟨_, body, _⟩ :: others => bindsBlock name body && bindsArms name others

/-- Whether a branch has a last block that binds the name. -/
def bindsLast (name : String) : Option (Block Stmt) → Bool
  | some inner => bindsBlock name inner
  | none => false

/-- Whether the name is bound behind the block. -/
def bindsBlock (name : String) : Block Stmt → Bool
  | ⟨body, _⟩ => bindsAll name body

/-- Whether the name is bound behind the statements. -/
def bindsAll (name : String) : List Stmt → Bool
  | [] => false
  | stmt :: stmts => stmt.binds name || bindsAll name stmts

end

mutual

/-- Whether the name is bound wherever the statement mentions it, given whether it is bound in front
of the statement.  A function that is declared there may run at any time later. -/
def covers (name : String) (bound : Bool) : Stmt → Bool
  | function ⟨_, declared, parameters, _, body, _⟩ =>
    coversBlock name ((bound || declared == name) || parameters.any (·.name == name)) body
  | ret value _ | bind _ value _ | expr value => value.covers name bound
  | branch ⟨condition, body, _⟩ others otherwise =>
    condition.covers name bound && coversBlock name bound body && coversArms name bound others &&
      coversLast name bound otherwise
  | loop condition body _ => condition.covers name bound && coversBlock name bound body
  | range counter lower upper body _ =>
    lower.covers name bound && upper.covers name bound &&
      coversBlock name (bound || counter == name) body
  | block inner => coversBlock name bound inner

/-- The same for the arms of a branch. -/
def coversArms (name : String) (bound : Bool) : List (Arm Stmt) → Bool
  | [] => true
  | ⟨condition, body, _⟩ :: others =>
    condition.covers name bound && coversBlock name bound body && coversArms name bound others

/-- The same for the last block of a branch. -/
def coversLast (name : String) (bound : Bool) : Option (Block Stmt) → Bool
  | some inner => coversBlock name bound inner
  | none => true

/-- The same for a block. -/
def coversBlock (name : String) (bound : Bool) : Block Stmt → Bool
  | ⟨body, _⟩ => coversAll name bound body

/-- The same for statements in a row. -/
def coversAll (name : String) (bound : Bool) : List Stmt → Bool
  | [] => true
  | stmt :: stmts => stmt.covers name bound && coversAll name (bound || stmt.binds name) stmts

end

end Stmt

/-- Whether the name is bound wherever the body of the function mentions it, given whether it is
bound in the frame of the declaration. -/
def FnDecl.covers (name : String) (bound : Bool) (decl : FnDecl Stmt) : Bool :=
  Stmt.coversBlock name (bound || decl.parameters.any (·.name == name)) decl.body

theorem Stmt.covers_function (name : String) (bound : Bool) (decl : FnDecl Stmt) :
    (function decl).covers name bound = decl.covers name (bound || decl.name == name) := by
  cases decl
  rfl

/-! ### Names that are bound from the start -/

theorem Expr.covers_true (name : String) (expr : Expr) : expr.covers name true = true := rfl

namespace Stmt

mutual

/-- A name that is bound in front of a statement is bound wherever it is mentioned. -/
theorem covers_true (name : String) : (stmt : Stmt) → stmt.covers name true = true
  | function ⟨_, _, _, _, body, _⟩ => coversBlock_true name body
  | ret _ _ | bind _ _ _ | expr _ => rfl
  | branch ⟨condition, body, _⟩ others otherwise => by
      rw [covers, Expr.covers_true, coversBlock_true, coversArms_true, coversLast_true]
      rfl
  | loop condition body _ => coversBlock_true name body
  | range _ _ _ body _ => coversBlock_true name body
  | block inner => coversBlock_true name inner

theorem coversArms_true (name : String) : (arms : List (Arm Stmt)) →
    coversArms name true arms = true
  | [] => rfl
  | ⟨condition, body, _⟩ :: others => by
      rw [coversArms, Expr.covers_true, coversBlock_true, coversArms_true]
      rfl

theorem coversLast_true (name : String) : (last : Option (Block Stmt)) →
    coversLast name true last = true
  | some inner => coversBlock_true name inner
  | none => rfl

theorem coversBlock_true (name : String) : (block : Block Stmt) → coversBlock name true block = true
  | ⟨body, _⟩ => coversAll_true name body

theorem coversAll_true (name : String) : (stmts : List Stmt) → coversAll name true stmts = true
  | [] => rfl
  | stmt :: stmts => by
      rw [coversAll, covers_true, Bool.true_or, coversAll_true]
      rfl

end

end Stmt

namespace Stmt

/-- What is bound in front of a statement does not harm it. -/
theorem covers_of_false {name : String} {stmt : Stmt} (h : stmt.covers name false = true)
    (bound : Bool) : stmt.covers name bound = true := by
  cases bound with
  | false => exact h
  | true => exact covers_true name stmt

theorem coversAll_of_forall {name : String} {stmts : List Stmt}
    (h : ∀ stmt ∈ stmts, stmt.covers name false = true) (bound : Bool) :
    coversAll name bound stmts = true := by
  induction stmts generalizing bound with
  | nil => rfl
  | cons stmt stmts ih =>
      rw [coversAll, covers_of_false (h stmt List.mem_cons_self),
        ih fun other hother => h other (List.mem_cons_of_mem _ hother)]
      rfl

end Stmt

/-! ### Whole programs -/

namespace Program

/-- The functions at the top of a program. -/
def functions (program : List Stmt) : List (FnDecl Stmt) :=
  program.filterMap Stmt.decl?

/-- The names that are bound before the first statement runs. -/
def given (program : List Stmt) : List String :=
  Builtin.all.map (·.name) ++ (functions program).map (·.name)

/-- Whether the name is bound wherever the statements at the top mention it, apart from the
functions among them. -/
def coversTop (name : String) : Bool → List Stmt → Bool
  | _, [] => true
  | bound, .function _ :: others => coversTop name bound others
  | bound, stmt :: others =>
    stmt.covers name bound && coversTop name (bound || stmt.binds name) others

/-- Whether the statement declares no function and mentions none of the given names. -/
def avoids (names : List String) (stmt : Stmt) : Bool :=
  stmt.parts.all fun part =>
    part.decl?.isNone && part.exprs.all fun expr => expr.mentions.all fun name =>
      !names.contains name

/-- Whether a statement at the top binds the name before any function is mentioned, and before the
name itself is. -/
def bindsEarly (name : String) (names : List String) : List Stmt → Bool
  | [] => false
  | .function _ :: others => bindsEarly name names others
  | stmt :: others =>
    stmt.covers name false && avoids names stmt &&
      (stmt.binds name || bindsEarly name names others)

/-- Whether the name is bound wherever the program mentions it. -/
def covers (name : String) (program : List Stmt) : Bool :=
  (given program).contains name ||
    ((functions program).all (·.covers name false) && coversTop name false program) ||
    bindsEarly name ((functions program).map (·.name)) program

theorem coversTop_cons {stmt : Stmt} (h : stmt.decl? = none) (name : String) (bound : Bool)
    (others : List Stmt) :
    coversTop name bound (stmt :: others) =
      (stmt.covers name bound && coversTop name (bound || stmt.binds name) others) := by
  cases stmt with
  | function decl => cases h
  | _ => rfl

theorem bindsEarly_cons {stmt : Stmt} (h : stmt.decl? = none) (name : String)
    (names : List String) (others : List Stmt) :
    bindsEarly name names (stmt :: others) =
      (stmt.covers name false && avoids names stmt &&
        (stmt.binds name || bindsEarly name names others)) := by
  cases stmt with
  | function decl => cases h
  | _ => rfl

theorem coversTop_of_forall {name : String} {program : List Stmt}
    (h : ∀ stmt ∈ program, stmt.covers name false = true) (bound : Bool) :
    coversTop name bound program = true := by
  induction program generalizing bound with
  | nil => rfl
  | cons stmt others ih =>
      have hothers := ih fun other hother => h other (List.mem_cons_of_mem _ hother)
      cases hdecl : stmt.decl? with
      | some decl =>
          obtain rfl := Stmt.eq_function_of_decl? hdecl
          exact hothers bound
      | none =>
          rw [coversTop_cons hdecl, Stmt.covers_of_false (h stmt List.mem_cons_self), hothers]
          rfl

theorem coversTop_true (name : String) (program : List Stmt) :
    coversTop name true program = true := by
  induction program with
  | nil => rfl
  | cons stmt others ih =>
      cases hdecl : stmt.decl? with
      | some decl =>
          obtain rfl := Stmt.eq_function_of_decl? hdecl
          exact ih
      | none =>
          rw [coversTop_cons hdecl, Stmt.covers_true, Bool.true_or, ih]
          rfl

end Program

/-! ### Names of variables and of functions inside of bodies -/

namespace Stmt

mutual

/-- The names that the statement declares, also in the bodies of functions. -/
def names : Stmt → List String
  | function ⟨_, declared, _, _, body, _⟩ => declared :: namesOfBlock body
  | bind name _ _ => [name]
  | ret _ _ | expr _ => []
  | branch ⟨_, body, _⟩ others otherwise =>
    namesOfBlock body ++ namesOfArms others ++ namesOfLast otherwise
  | loop _ body _ => namesOfBlock body
  | range counter _ _ body _ => counter :: namesOfBlock body
  | block inner => namesOfBlock inner

/-- The names that the arms of a branch declare. -/
def namesOfArms : List (Arm Stmt) → List String
  | [] => []
  | ⟨_, body, _⟩ :: others => namesOfBlock body ++ namesOfArms others

/-- The names that the last block of a branch declares. -/
def namesOfLast : Option (Block Stmt) → List String
  | some inner => namesOfBlock inner
  | none => []

/-- The names that a block declares. -/
def namesOfBlock : Block Stmt → List String
  | ⟨body, _⟩ => namesOfAll body

/-- The names that statements declare. -/
def namesOfAll : List Stmt → List String
  | [] => []
  | stmt :: stmts => stmt.names ++ namesOfAll stmts

end

end Stmt

/-- The names that a program declares, apart from the functions at its top. -/
def Program.locals : List Stmt → List String
  | [] => []
  | .function decl :: others => Stmt.namesOfBlock decl.body ++ Program.locals others
  | stmt :: others => stmt.names ++ Program.locals others

end Quill
