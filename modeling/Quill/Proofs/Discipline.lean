import Quill.Proofs.Ensures
import Quill.Proofs.Hereditary
import Quill.Proofs.Parts

/-!
# Disciplines

A discipline is a property of machines together with a property of values, such that every single
step of a run keeps the one and computes only values with the other.  Whatever the program, the
whole of a statement then keeps them too: this is shown here once, by going through the trees of
expressions and statements, for every discipline and for every way of making calls that keeps it.

The same walk settles which faults can end a statement.  A pop of the global frame and a return
outside of functions never do, and a write to something that is not stored only does if some
assignment has such a target.
-/

namespace Quill

/-- What holds of the value that a statement returns, if it returns one. -/
def Flow.Holds (P : Value → Prop) : Flow → Prop
  | normal => True
  | returned value => P value

/-! ### The walk through a program -/

/-- Properties of machines and of values that single steps keep. -/
structure Discipline where
  machine : Machine → Prop
  value : Value → Prop
  /-- The functions that may be declared. -/
  function : FnDecl Stmt → Prop
  /-- Whether assignments whose targets cannot be assigned to are ruled out. -/
  strict : Prop
  hereditary : Value.Hereditary value
  get : ∀ state, machine state → ∀ name found, state.scope.get? name = some found → value found
  update : ∀ state, machine state → ∀ name stored scope, value stored →
    state.scope.update? name stored = some scope → machine { state with scope := scope }
  insert : ∀ state, machine state → ∀ name stored, value stored →
    machine (state.insert name stored)
  declare : ∀ state, machine state → ∀ decl, function decl → machine (state.declare decl)
  exchange : ∀ state, machine state → ∀ console, machine { state with console := console }

namespace Discipline

/-- The reasons for which a part of a program may stop under the discipline. -/
def Permits (discipline : Discipline) (halt : Halt) : Prop :=
  ∀ fault, halt = .fault fault →
    fault.isOrdinary = true ∨ fault = .notAssignable ∧ ¬discipline.strict

/-- The action keeps to the discipline, and gives results with a property. -/
def Keeps (discipline : Discipline) {α : Type} (action : Eval α) (result : α → Prop) : Prop :=
  Eval.Ensures discipline.machine action
    (fun value machine => discipline.machine machine ∧ result value)
    (fun halt machine => discipline.machine machine ∧ discipline.Permits halt)

/-- Calls keep to the discipline. -/
def Governs (discipline : Discipline) (invoke : Invoke) : Prop :=
  ∀ decl frame arguments, discipline.value (.function decl frame) →
    (∀ argument ∈ arguments, discipline.value argument) →
    discipline.Keeps (invoke decl frame arguments) discipline.value

/-- The statement itself, apart from those in its blocks, may run under the discipline. -/
def Admits (discipline : Discipline) (stmt : Stmt) : Prop :=
  (discipline.strict → ∀ expr ∈ stmt.exprs, expr.assignsProperly = true) ∧
    ∀ decl, stmt = .function decl → discipline.function decl

/-- What is known of the location that an expression denotes. -/
def Locates (discipline : Discipline) (expr : Expr) (location : Location) : Prop :=
  location.Holds discipline.value ∧ (expr.isAssignable = true → location.isStored = true)

variable {discipline : Discipline} {host : Host} {invoke : Invoke} {α β : Type}

theorem permits_of_isOrdinary {fault : Fault} (h : fault.isOrdinary = true) :
    discipline.Permits (.fault fault) := by
  intro other heq
  cases heq
  exact .inl h

theorem permits_outOfFuel : discipline.Permits .outOfFuel := by
  intro fault heq
  cases heq

namespace Keeps

theorem pure {result : α → Prop} {value : α} (h : result value) :
    discipline.Keeps (Pure.pure value) result :=
  Eval.Ensures.pure fun _ hm => ⟨hm, h⟩

theorem bind {action : Eval α} {next : α → Eval β} {mid : α → Prop} {result : β → Prop}
    (hfirst : discipline.Keeps action mid)
    (hnext : ∀ value, mid value → discipline.Keeps (next value) result) :
    discipline.Keeps (action >>= next) result :=
  Eval.Ensures.bind hfirst fun value machine h => hnext value h.2 machine h.1

theorem fail {fault : Fault} {result : α → Prop} (h : fault.isOrdinary = true) :
    discipline.Keeps (Eval.fail fault) result :=
  Eval.Ensures.fail fun _ hm => ⟨hm, permits_of_isOrdinary h⟩

theorem read {location : Location} (hlocation : location.Holds discipline.value) :
    discipline.Keeps (Eval.read location) discipline.value := by
  refine Eval.Ensures.read (fun value machine hread hm => ⟨hm, ?_⟩)
    (fun fault machine hread hm => ⟨hm, ?_⟩)
  · exact Location.hereditary_of_read discipline.hereditary (discipline.get machine hm)
      hlocation hread
  · exact permits_of_isOrdinary (Location.isOrdinary_of_read hread)

theorem write {location : Location} {value : Value}
    (hlocation : location.Holds discipline.value)
    (hstored : discipline.strict → location.isStored = true) (hvalue : discipline.value value) :
    discipline.Keeps (Eval.write location value) fun _ => True := by
  refine Eval.Ensures.write (fun scope machine hwrite hm => ⟨?_, trivial⟩)
    (fun fault machine hwrite hm => ⟨hm, ?_⟩)
  · obtain ⟨name, stored, hgood, hupdate⟩ := Location.update_of_write discipline.hereditary
      (discipline.get machine hm) hlocation hvalue hwrite
    exact discipline.update machine hm name stored scope hgood hupdate
  · rcases Location.isOrdinary_of_write hwrite with hordinary | ⟨rfl, hloose⟩
    · exact permits_of_isOrdinary hordinary
    -- A write to what is not stored is possible only where the discipline is not strict.
    · intro other heq
      cases heq
      refine .inr ⟨rfl, fun hstrict => ?_⟩
      rw [hstored hstrict] at hloose
      exact Bool.noConfusion hloose

theorem lookup {name : String} :
    discipline.Keeps (Eval.lookup name) fun found =>
      ∀ value, found = some value → discipline.value value :=
  Eval.Ensures.lookup fun machine hm => ⟨hm, discipline.get machine hm name⟩

theorem ofOperator {operator : Operator} {left right : Value} (hleft : discipline.value left)
    (hright : discipline.value right) :
    discipline.Keeps (Eval.ofExcept (left.apply operator right)) discipline.value :=
  Eval.Ensures.ofExcept
    (fun _ _ hok hm => ⟨hm, discipline.hereditary.apply hleft hright hok⟩)
    (fun _ _ herror hm => ⟨hm, permits_of_isOrdinary (Value.isOrdinary_of_apply herror)⟩)

theorem value {locate : Eval Location} {expr : Expr}
    (h : discipline.Keeps locate (discipline.Locates expr)) :
    discipline.Keeps (Eval.value locate) discipline.value :=
  bind h fun _ hlocation => read hlocation.1

theorem truth {action : Eval Value} (h : discipline.Keeps action discipline.value) :
    discipline.Keeps (Eval.truth action) fun _ => True :=
  Eval.Ensures.truth h (fun _ _ hm => ⟨hm.1, trivial⟩)
    fun _ _ hm _ => ⟨hm.1, permits_of_isOrdinary rfl⟩

theorem integer {action : Eval Value} (h : discipline.Keeps action discipline.value) :
    discipline.Keeps (Eval.integer action) fun _ => True :=
  Eval.Ensures.integer h (fun _ _ hm => ⟨hm.1, trivial⟩)
    fun _ _ hm _ => ⟨hm.1, permits_of_isOrdinary rfl⟩

theorem andThen {first next : Eval Flow} {result : Flow → Prop}
    (hfirst : discipline.Keeps first result) (hnext : discipline.Keeps next result) :
    discipline.Keeps (Eval.andThen first next) result :=
  Eval.Ensures.andThen hfirst (hnext.assuming fun _ hm => hm.1) fun _ _ h => h

theorem choose {condition : Eval Bool} {yes no : Eval Flow} {result : Flow → Prop}
    (hcondition : discipline.Keeps condition fun _ => True)
    (hyes : discipline.Keeps yes result) (hno : discipline.Keeps no result) :
    discipline.Keeps (Eval.choose condition yes no) result :=
  Eval.Ensures.choose (hcondition.imp fun _ _ hm => hm.1) hyes hno

/-- A built-in function neither sees nor changes the scope. -/
theorem native (native : Builtin) (arguments : List Value) :
    discipline.Keeps (Eval.interact (native.run host arguments)) discipline.value := by
  have hrun := native.run_ensures host arguments
  refine Eval.Ensures.interact (fun machine value console hok hm => ?_)
    (fun machine fault console herror hm => ?_)
  · have hvalue := hrun machine.console
    rw [hok] at hvalue
    exact ⟨discipline.exchange machine hm console,
      discipline.hereditary.ofBuiltin native hvalue⟩
  · have hfault := hrun machine.console
    rw [herror] at hfault
    exact ⟨discipline.exchange machine hm console,
      permits_of_isOrdinary (Builtin.isOrdinary_of_mayRaise hfault)⟩

theorem apply (hinvoke : discipline.Governs invoke) {name : String} {callee : Value}
    {arguments : List Value} (hcallee : discipline.value callee)
    (harguments : ∀ argument ∈ arguments, discipline.value argument) :
    discipline.Keeps (Eval.apply host invoke name callee arguments) discipline.value := by
  cases callee with
  | builtin native => exact Keeps.native native arguments
  | function decl frame => exact hinvoke decl frame arguments hcallee harguments
  | _ => exact Keeps.fail rfl

theorem change {f : Machine → Machine}
    (h : ∀ machine, discipline.machine machine → discipline.machine (f machine)) :
    discipline.Keeps (Eval.change f) fun _ => True :=
  Eval.Ensures.change fun machine hm => ⟨h machine hm, trivial⟩

theorem repeatWhile {condition : Eval Bool} {body : Eval Flow} {result : Flow → Prop}
    (hcondition : discipline.Keeps condition fun _ => True)
    (hbody : discipline.Keeps body result) (hnormal : result .normal) (fuel : Nat) :
    discipline.Keeps (Eval.repeatWhile condition body fuel) result :=
  Eval.Ensures.repeatWhile (hcondition.imp fun _ _ hm => hm.1) hbody (fun _ hm => hm.1)
    (fun _ hm => ⟨hm, hnormal⟩) (fun _ hm => ⟨hm, permits_outOfFuel⟩) fuel

theorem countFrom {body : Int64 → Eval Flow} {result : Flow → Prop}
    (hbody : ∀ number, discipline.Keeps (body number) result) (hnormal : result .normal)
    (count : Nat) (first : Int64) :
    discipline.Keeps (Eval.countFrom body count first) result :=
  Eval.Ensures.countFrom hbody (fun _ hm => hm.1) (fun _ hm => ⟨hm, hnormal⟩) count first

end Keeps

/-- What is asked of the assignments in an expression. -/
def AdmitsExpr (discipline : Discipline) (expr : Expr) : Prop :=
  discipline.strict → expr.assignsProperly = true

/-- What is asked of the assignments in expressions. -/
def AdmitsExprs (discipline : Discipline) (exprs : List Expr) : Prop :=
  discipline.strict → Expr.assignProperly exprs = true

theorem admitsExpr_of_parts {stmt : Stmt}
    (hparts : ∀ part ∈ stmt.parts, discipline.Admits part) (hself : stmt ∈ stmt.parts)
    (expr : Expr) (hmem : expr ∈ stmt.exprs) : discipline.AdmitsExpr expr :=
  fun hstrict => (hparts stmt hself).1 hstrict expr hmem

mutual

/-- Finding the location of an expression keeps to the discipline. -/
theorem keeps_locate (hinvoke : discipline.Governs invoke) :
    (expr : Expr) → discipline.AdmitsExpr expr →
    discipline.Keeps (Eval.locate host invoke expr) (discipline.Locates expr)
  | .int _ _, _ | .float _ _, _ | .string _ _, _ | .bool _ _, _ =>
    Keeps.pure ⟨discipline.hereditary.plain _ rfl, by simp [Expr.isAssignable]⟩
  | .name _ _, _ => Keeps.pure ⟨trivial, fun _ => rfl⟩
  | .array elements span, hexpr => by
      have hvalues := keeps_evaluateAll hinvoke elements hexpr
      exact Keeps.bind hvalues fun values h =>
        Keeps.pure ⟨(discipline.hereditary.array values).mpr h, by simp [Expr.isAssignable]⟩
  | .subscript base index span, hexpr => by
      have hparts : discipline.AdmitsExpr base ∧ discipline.AdmitsExpr index := by
        simp only [AdmitsExpr, Expr.assignsProperly_subscript, Bool.and_eq_true] at hexpr
        exact ⟨fun hs => (hexpr hs).1, fun hs => (hexpr hs).2⟩
      refine Keeps.bind (keeps_locate hinvoke base hparts.1) fun location hlocation => ?_
      have hindex := Keeps.integer (Keeps.value (keeps_locate hinvoke index hparts.2))
      exact Keeps.bind hindex fun place _ => Keeps.pure ⟨hlocation.1, hlocation.2⟩
  | .call callee calleeSpan arguments span, hexpr => by
      have hvalues := keeps_evaluateAll hinvoke arguments hexpr
      -- The callee is looked up first: what the arguments do does not change which one is called.
      refine Keeps.bind Keeps.lookup fun found hfound => ?_
      cases found with
      | none => exact Keeps.fail rfl
      | some function =>
          refine Keeps.bind hvalues fun values harguments => ?_
          refine Keeps.bind (Keeps.apply hinvoke (hfound function rfl) harguments)
            fun result hresult => ?_
          exact Keeps.pure ⟨hresult, by simp [Expr.isAssignable]⟩
  | .binary operator left right span, hexpr => by
      have hparts : discipline.AdmitsExpr left ∧ discipline.AdmitsExpr right := by
        simp only [AdmitsExpr, Expr.assignsProperly_binary, Bool.and_eq_true] at hexpr
        exact ⟨fun hs => (hexpr hs).1, fun hs => (hexpr hs).2⟩
      refine Keeps.bind (Keeps.value (keeps_locate hinvoke left hparts.1)) fun first hfirst => ?_
      refine Keeps.bind (Keeps.value (keeps_locate hinvoke right hparts.2)) fun second hsecond => ?_
      exact Keeps.bind (Keeps.ofOperator hfirst hsecond) fun result hresult =>
        Keeps.pure ⟨hresult, by simp [Expr.isAssignable]⟩
  | .assign target source span, hexpr => by
      have hparts : (discipline.strict → target.isAssignable = true) ∧
          discipline.AdmitsExpr target ∧ discipline.AdmitsExpr source := by
        simp only [AdmitsExpr, Expr.assignsProperly_assign, Bool.and_eq_true] at hexpr
        exact ⟨fun hs => (hexpr hs).1.1, fun hs => (hexpr hs).1.2, fun hs => (hexpr hs).2⟩
      refine Keeps.bind (keeps_locate hinvoke target hparts.2.1) fun location hlocation => ?_
      refine Keeps.bind (Keeps.value (keeps_locate hinvoke source hparts.2.2))
        fun result hresult => ?_
      -- Where the discipline is strict, the target is assignable and its location is stored.
      have hwrite := Keeps.write hlocation.1 (fun hs => hlocation.2 (hparts.1 hs)) hresult
      exact Keeps.bind hwrite fun _ _ =>
        Keeps.pure ⟨discipline.hereditary.plain _ rfl, by simp [Expr.isAssignable]⟩

/-- Evaluating expressions keeps to the discipline. -/
theorem keeps_evaluateAll (hinvoke : discipline.Governs invoke) :
    (exprs : List Expr) → discipline.AdmitsExprs exprs →
    discipline.Keeps (Eval.evaluateAll host invoke exprs)
      fun values => ∀ value ∈ values, discipline.value value
  | [], _ => Keeps.pure (by simp)
  | expr :: exprs, hexprs => by
      have hparts : discipline.AdmitsExpr expr ∧ discipline.AdmitsExprs exprs := by
        simp only [AdmitsExprs, Expr.assignProperly_cons, Bool.and_eq_true] at hexprs
        exact ⟨fun hs => (hexprs hs).1, fun hs => (hexprs hs).2⟩
      refine Keeps.bind (Keeps.value (keeps_locate hinvoke expr hparts.1)) fun first hvalue => ?_
      refine Keeps.bind (keeps_evaluateAll hinvoke exprs hparts.2) fun others hothers => ?_
      exact Keeps.pure (by simpa using ⟨hvalue, hothers⟩)

end

/-- Evaluating an expression keeps to the discipline. -/
theorem keeps_evaluate (hinvoke : discipline.Governs invoke) (expr : Expr)
    (hexpr : discipline.AdmitsExpr expr) :
    discipline.Keeps (Eval.evaluate host invoke expr) discipline.value :=
  Keeps.value (keeps_locate hinvoke expr hexpr)

mutual

/-- Running a statement keeps to the discipline. -/
theorem keeps_stmt (hinvoke : discipline.Governs invoke) (fuel : Nat) : (stmt : Stmt) →
    (∀ part ∈ stmt.parts, discipline.Admits part) →
    discipline.Keeps (Eval.stmt host invoke fuel stmt) (Flow.Holds discipline.value)
  | .function decl, hparts => by
      have hdecl : discipline.function decl := (hparts _ (by simp [Stmt.parts])).2 decl rfl
      refine Keeps.bind (Keeps.change fun machine hm => discipline.declare machine hm decl hdecl)
        fun _ _ => Keeps.pure trivial
  | .ret value span, hparts => by
      have hvalue := admitsExpr_of_parts hparts (by simp [Stmt.parts]) value (by simp [Stmt.exprs])
      exact Keeps.bind (keeps_evaluate hinvoke value hvalue) fun result hresult =>
        Keeps.pure hresult
  | .bind name value span, hparts => by
      have hvalue := admitsExpr_of_parts hparts (by simp [Stmt.parts]) value (by simp [Stmt.exprs])
      refine Keeps.bind (keeps_evaluate hinvoke value hvalue) fun result hresult => ?_
      exact Keeps.bind
        (Keeps.change fun machine hm => discipline.insert machine hm name result hresult)
        fun _ _ => Keeps.pure trivial
  | .expr value, hparts => by
      have hvalue := admitsExpr_of_parts hparts (by simp [Stmt.parts]) value (by simp [Stmt.exprs])
      exact Keeps.bind (keeps_evaluate hinvoke value hvalue) fun _ _ => Keeps.pure trivial
  | .branch ⟨condition, body, span⟩ others otherwise, hparts => by
      -- The conditions belong to the statement itself, the statements of its blocks are its parts.
      have hadmits := (hparts _ (List.mem_cons_self ..)).1
      have hcondition : discipline.AdmitsExpr condition :=
        fun hs => hadmits hs condition (by simp [Stmt.exprs])
      have hconditions : ∀ arm ∈ others, discipline.AdmitsExpr arm.condition :=
        fun arm hmem hs => hadmits hs arm.condition
          (List.mem_cons_of_mem _ (List.mem_map_of_mem hmem))
      simp only [Stmt.parts, List.mem_cons, List.mem_append, forall_eq_or_imp] at hparts
      refine Keeps.choose (Keeps.truth (keeps_evaluate hinvoke condition hcondition))
        (keeps_block hinvoke fuel body fun part hmem => hparts.2 part (.inl (.inl hmem))) ?_
      exact keeps_arms hinvoke fuel others hconditions
        (fun part hmem => hparts.2 part (.inl (.inr hmem)))
        (keeps_lastBlock hinvoke fuel otherwise fun part hmem => hparts.2 part (.inr hmem))
  | .loop condition body span, hparts => by
      have hcondition := admitsExpr_of_parts hparts (by simp [Stmt.parts]) condition
        (by simp [Stmt.exprs])
      have hbody := keeps_block hinvoke fuel body fun part hmem =>
        hparts part (List.mem_cons_of_mem _ hmem)
      exact Keeps.repeatWhile (Keeps.truth (keeps_evaluate hinvoke condition hcondition)) hbody
        trivial fuel
  | .range counter lower upper body span, hparts => by
      have hlower := admitsExpr_of_parts hparts (by simp [Stmt.parts]) lower (by simp [Stmt.exprs])
      have hupper := admitsExpr_of_parts hparts (by simp [Stmt.parts]) upper (by simp [Stmt.exprs])
      have hbody := keeps_block hinvoke fuel body fun part hmem =>
        hparts part (List.mem_cons_of_mem _ hmem)
      refine Keeps.bind (Keeps.integer (keeps_evaluate hinvoke lower hlower)) fun first _ => ?_
      refine Keeps.bind (Keeps.integer (keeps_evaluate hinvoke upper hupper)) fun last _ => ?_
      -- Every round binds the counter anew and then runs the body.
      refine Keeps.countFrom (fun number => ?_) trivial _ _
      exact Keeps.bind (Keeps.change fun machine hm => discipline.insert machine hm counter _
        (discipline.hereditary.plain _ rfl)) fun _ _ => hbody
  | .block inner, hparts =>
      keeps_block hinvoke fuel inner fun part hmem => hparts part (List.mem_cons_of_mem _ hmem)

theorem keeps_arms (hinvoke : discipline.Governs invoke) (fuel : Nat) {last : Eval Flow} :
    (arms : List (Arm Stmt)) →
    (∀ arm ∈ arms, discipline.AdmitsExpr arm.condition) →
    (∀ part ∈ Stmt.partsOfArms arms, discipline.Admits part) →
    discipline.Keeps last (Flow.Holds discipline.value) →
    discipline.Keeps (Eval.arms host invoke fuel arms last) (Flow.Holds discipline.value)
  | [], _, _, hlast => hlast
  | ⟨condition, body, span⟩ :: others, hconditions, hparts, hlast => by
      simp only [Stmt.partsOfArms, List.mem_append] at hparts
      simp only [List.mem_cons, forall_eq_or_imp] at hconditions
      refine Keeps.choose (Keeps.truth (keeps_evaluate hinvoke condition hconditions.1))
        (keeps_block hinvoke fuel body fun part hmem => hparts part (.inl hmem)) ?_
      exact keeps_arms hinvoke fuel others hconditions.2
        (fun part hmem => hparts part (.inr hmem)) hlast

theorem keeps_lastBlock (hinvoke : discipline.Governs invoke) (fuel : Nat) :
    (last : Option (Block Stmt)) →
    (∀ part ∈ Stmt.partsOfLast last, discipline.Admits part) →
    discipline.Keeps (Eval.lastBlock host invoke fuel last) (Flow.Holds discipline.value)
  | some inner, hparts => keeps_block hinvoke fuel inner hparts
  | none, _ => Keeps.pure trivial

theorem keeps_block (hinvoke : discipline.Governs invoke) (fuel : Nat) : (block : Block Stmt) →
    (∀ part ∈ Stmt.partsOfBlock block, discipline.Admits part) →
    discipline.Keeps (Eval.block host invoke fuel block) (Flow.Holds discipline.value)
  | ⟨body, _⟩, hparts => keeps_stmts hinvoke fuel body hparts

/-- Running statements in a row keeps to the discipline. -/
theorem keeps_stmts (hinvoke : discipline.Governs invoke) (fuel : Nat) : (stmts : List Stmt) →
    (∀ part ∈ Stmt.partsOfAll stmts, discipline.Admits part) →
    discipline.Keeps (Eval.stmts host invoke fuel stmts) (Flow.Holds discipline.value)
  | [], _ => Keeps.pure trivial
  | stmt :: stmts, hparts => by
      simp only [Stmt.partsOfAll, List.mem_append] at hparts
      exact Keeps.andThen (keeps_stmt hinvoke fuel stmt fun part hmem => hparts part (.inl hmem))
        (keeps_stmts hinvoke fuel stmts fun part hmem => hparts part (.inr hmem))

end

end Discipline

end Quill
