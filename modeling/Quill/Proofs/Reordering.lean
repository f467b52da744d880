import Mathlib.Data.List.Nodup
import Quill.Proofs.Binding.Programs
import Quill.Proofs.Numbering

/-!
# The order of function declarations

Functions at the top of a program are declared before anything else happens, by the checker and by a
run.  Declarations of different names commute, so both start from one scope, whatever the order of
the functions.  From there on a run only calls `main`.  The checker goes through the functions one
after the other, and what it finds in one of them depends on the global names alone: the problems
found in all of them are the same in another order.
-/

namespace Quill

namespace Scope

variable {V : Type}

theorem bindings_insert_comm (bindings : Bindings V) {name other : String} (hne : name ≠ other)
    (value stored : V) :
    (bindings.insert name value).insert other stored =
      (bindings.insert other stored).insert name value := by
  refine Std.ExtTreeMap.ext_getElem? fun asked => ?_
  simp only [getElem?_insert]
  by_cases hname : name = asked
  · have hother : ¬ other = asked := fun heq => hne (hname.trans heq.symm)
    simp [hname, hother]
  · simp [hname]

/-- Two different names can be bound in either order. -/
theorem insert_insert_comm (scope : Scope V) {name other : String} (hne : name ≠ other)
    (value stored : V) :
    (scope.insert name value).insert other stored =
      (scope.insert other stored).insert name value := by
  induction scope using shapes with
  | global globals pushed =>
      simp only [insert_eq_withLocals, locals_global, withLocals_global]
      rw [bindings_insert_comm globals hne]
  | inner globals below frame pushed =>
      simp only [insert_push]
      rw [bindings_insert_comm frame.bindings hne]

end Scope

section Declarations

variable {decls decls' : List (FnDecl Stmt)}

theorem Stmt.filterMap_decl?_functions (decls : List (FnDecl Stmt)) :
    (decls.map Stmt.function).filterMap Stmt.decl? = decls := by
  induction decls with
  | nil => rfl
  | cons decl decls ih => simpa [Stmt.decl?] using ih

/-- A fold over declarations with different names does not depend on their order, if two steps with
different names can be swapped. -/
theorem foldl_perm {σ : Type} {step : σ → FnDecl Stmt → σ} (hperm : decls.Perm decls')
    (hdistinct : (decls.map (·.name)).Nodup)
    (hswap : ∀ state decl other, decl.name ≠ other.name →
      step (step state decl) other = step (step state other) decl) (state : σ) :
    decls.foldl step state = decls'.foldl step state := by
  refine hperm.foldl_eq' (fun decl hdecl other hother state => ?_) state
  by_cases hname : decl.name = other.name
  · rw [List.inj_on_of_nodup_map hdistinct hdecl hother hname]
  · exact hswap state decl other hname

/-! ### What runs do -/

namespace Machine

theorem declare_declare_comm (machine : Machine) {decl other : FnDecl Stmt}
    (hne : decl.name ≠ other.name) :
    (machine.declare decl).declare other = (machine.declare other).declare decl := by
  -- Neither declaration changes the frame that the functions remember.
  have hhandle : ∀ decl : FnDecl Stmt,
      (machine.declare decl).scope.currentHandle = machine.scope.currentHandle :=
    fun decl => (machine.scope.kept_insert _ _).currentHandle_eq
  have hdeclare : ∀ decl other : FnDecl Stmt, (machine.declare decl).declare other =
      (machine.insert decl.name (.function decl machine.scope.currentHandle)).insert other.name
        (.function other machine.scope.currentHandle) := by
    intro decl other
    rw [declare, hhandle, declare]
  rw [hdeclare, hdeclare]
  simp only [insert, Scope.insert_insert_comm machine.scope hne]

end Machine

namespace Eval

theorem declareFunctions_perm (hperm : decls.Perm decls')
    (hdistinct : (decls.map (·.name)).Nodup) (machine : Machine) :
    declareFunctions (decls.map .function) machine =
      declareFunctions (decls'.map .function) machine := by
  rw [declareFunctions, declareFunctions, Stmt.filterMap_decl?_functions,
    Stmt.filterMap_decl?_functions]
  exact foldl_perm hperm hdistinct (fun machine _ _ hne => machine.declare_declare_comm hne) machine

/-- Functions at the top are passed over by a run. -/
theorem topLevel_functions (host : Host) (invoke : Invoke) (fuel : Nat)
    (decls : List (FnDecl Stmt)) :
    topLevel host invoke fuel (decls.map .function) = pure () := by
  induction decls with
  | nil => rfl
  | cons decl decls ih => rw [List.map_cons, topLevel, ih]

theorem program_perm (hperm : decls.Perm decls') (hdistinct : (decls.map (·.name)).Nodup)
    (host : Host) (fuel : Nat) :
    program host fuel (decls.map .function) = program host fuel (decls'.map .function) := by
  have hdeclare : declareFunctions (decls.map .function) =
      declareFunctions (decls'.map .function) :=
    funext (declareFunctions_perm hperm hdistinct)
  rw [program, program, programVia, programVia, hdeclare, topLevel_functions, topLevel_functions]

end Eval

/-! ### What the checker does -/

namespace Checker

/-- Functions whose names are new to the innermost frame, and different from each other, are all
declared. -/
theorem foldl_declare {checker : Checker} (hdistinct : (decls.map (·.name)).Nodup)
    (hnew : ∀ decl ∈ decls, decl.name ∉ checker.scope.locals) :
    decls.foldl declare checker =
      decls.foldl (fun checker decl => checker.insert decl.name decl.signature) checker := by
  induction decls generalizing checker with
  | nil => rfl
  | cons decl decls ih =>
      obtain ⟨hfirst, hothers⟩ := List.nodup_cons.mp hdistinct
      have hdeclare : checker.declare decl = checker.insert decl.name decl.signature := by
        have hnone : checker.scope.getLocal? decl.name = none := by
          have := hnew decl List.mem_cons_self
          simpa [Scope.getLocal?, Scope.getIn?, Scope.locals] using this
        simp only [declare, hnone]
      rw [List.foldl_cons, List.foldl_cons, hdeclare]
      refine ih hothers fun other hother hmem => ?_
      rw [insert, Scope.locals_insert, Scope.mem_insert_iff] at hmem
      rcases hmem with hsame | hold
      · exact hfirst (List.mem_map.mpr ⟨other, hother, hsame.symm⟩)
      · exact hnew other (List.mem_cons_of_mem decl hother) hold

theorem declareFunctions_perm {checker : Checker} (hperm : decls.Perm decls')
    (hdistinct : (decls.map (·.name)).Nodup)
    (hnew : ∀ decl ∈ decls, decl.name ∉ checker.scope.locals) :
    checker.declareFunctions (decls.map .function) =
      checker.declareFunctions (decls'.map .function) := by
  have hdistinct' : (decls'.map (·.name)).Nodup := (hperm.map _).nodup_iff.mp hdistinct
  have hnew' : ∀ decl ∈ decls', decl.name ∉ checker.scope.locals :=
    fun decl hdecl => hnew decl (hperm.mem_iff.mpr hdecl)
  rw [declareFunctions, declareFunctions, Stmt.filterMap_decl?_functions,
    Stmt.filterMap_decl?_functions, foldl_declare hdistinct hnew, foldl_declare hdistinct' hnew']
  refine foldl_perm hperm hdistinct (fun checker decl other hne => ?_) checker
  simp only [insert, Scope.insert_insert_comm checker.scope hne]

end Checker

namespace Check

/-- The problems in a function, for a checker that has just a scope. -/
def problemsIn (scope : Scope Ty) (decl : FnDecl Stmt) : List Diagnostic :=
  match Check.function decl ⟨scope, []⟩ with
  | .ok _ after => after.recorded
  | .error _ after => after.recorded

/-- A function leaves the names in scope as they are. -/
theorem function_keeps_scope (decl : FnDecl Stmt) (checker : Checker) : ∃ after,
    Check.function decl checker = .ok () after ∧
      after.scope.unnumbered = checker.scope.unnumbered := by
  obtain ⟨id, name, parameters, returnType, body, span⟩ := decl
  have htidy := (Tidy.change (Checker.moves_bindParameters
    ⟨id, name, parameters, returnType, body, span⟩)).bind (tidy_block body)
  obtain ⟨inner, pushed, -, -, hrun⟩ := htidy.inFrame_eq returnType checker
  exact ⟨_, run_bind hrun, checker.scope.unnumbered_withLocals_self pushed⟩

/-- What is found in a function depends on the names in scope only. -/
theorem function_finds {scope : Scope Ty} {checker : Checker}
    (hscope : checker.scope.unnumbered = scope.unnumbered) (decl : FnDecl Stmt) :
    ∃ after, Check.function decl checker = .ok () after ∧
      after.scope.unnumbered = scope.unnumbered ∧
      after.recorded = checker.recorded ++ problemsIn scope decl := by
  have habreast : Checker.Abreast checker.recorded [] checker ⟨scope, []⟩ :=
    ⟨hscope, [], by simp, rfl⟩
  obtain ⟨after, alone, hafter, halone, hlater⟩ := even_function decl _ _ habreast
  obtain ⟨kept, hkept, hsame⟩ := function_keeps_scope decl checker
  obtain rfl : kept = after := (EStateM.Result.ok.inj (hkept.symm.trans hafter)).2
  obtain ⟨found, hfound, hfound'⟩ := hlater.found
  have hproblems : problemsIn scope decl = found := by
    rw [problemsIn, halone]
    exact hfound'
  exact ⟨kept, hkept, hsame.trans hscope, by rw [hfound, hproblems]⟩

/-- The problems in functions at the top are those in each of them, one after the other. -/
theorem stmts_find {scope : Scope Ty} (htop : scope.current = Scope.global)
    (decls : List (FnDecl Stmt)) {checker : Checker}
    (hscope : checker.scope.unnumbered = scope.unnumbered) :
    ∃ after, Check.stmts (decls.map .function) checker = .ok () after ∧
      after.recorded = checker.recorded ++ decls.flatMap (problemsIn scope) := by
  induction decls generalizing checker with
  | nil => exact ⟨checker, rfl, by simp⟩
  | cons decl decls ih =>
      obtain ⟨middle, hmiddle, hsame, hfirst⟩ := function_finds hscope decl
      obtain ⟨after, hafter, hothers⟩ := ih hsame
      refine ⟨after, ?_, by rw [hothers, hfirst, List.flatMap_cons, List.append_assoc]⟩
      have hcurrent : checker.scope.current = Scope.global := by
        rw [← Scope.current_unnumbered, hscope, Scope.current_unnumbered, htop]
      -- At the top a function is not declared again.
      have hdeclared : Check.change (fun checker =>
          if checker.scope.current = Scope.global then checker else checker.declareLocal decl)
            checker = .ok () checker := by
        simp [Check.change, hcurrent]
      have hstmt : Check.stmt (.function decl) checker = .ok () middle := by
        rw [Check.stmt, run_bind hdeclared, hmiddle]
      rw [List.map_cons, Check.stmts, run_bind hstmt, hafter]

/-- The problems in a program of functions: those in each of them, in the scope that binds all. -/
theorem program_finds (checker : Checker) (htop : checker.scope.current = Scope.global)
    (decls : List (FnDecl Stmt)) : ∃ after,
      Check.program (decls.map .function) checker = .ok () after ∧
      after.recorded = (checker.declareFunctions (decls.map .function)).recorded ++
        decls.flatMap
          (problemsIn (checker.declareFunctions (decls.map .function)).scope) := by
  have hcurrent : (checker.declareFunctions (decls.map .function)).scope.current =
      Scope.global := by
    obtain ⟨bindings, pushed, problems, hmoved⟩ :=
      Checker.moves_declareFunctions (decls.map .function) checker
    simp only [hmoved, Checker.moved, Scope.current_withLocals, htop]
  obtain ⟨after, hafter, hfound⟩ := stmts_find hcurrent decls rfl
  exact ⟨after, (run_bind rfl).trans hafter, hfound⟩

end Check

/-- A name that no built-in function has is new to a checker that has seen nothing. -/
theorem Checker.not_mem_start {name : String} (h : Builtin.ofName? name = none)
    (recorded : List Diagnostic) :
    name ∉ ({ Checker.start with recorded := recorded } : Checker).scope.locals := by
  show name ∉ Checker.start.scope.globals
  rw [Checker.start, Scope.mem_ofGlobals, List.map_map, List.mem_map]
  rintro ⟨builtin, hmem, rfl⟩
  exact List.find?_eq_none.mp h builtin hmem (beq_self_eq_true _)

/-- The order of functions does not matter: if a program is made of functions with different names,
none of them that of a built-in function, then any other order gives the same problems, as often as
before, and the same run. -/
theorem order_of_functions_irrelevant (hperm : decls.Perm decls')
    (hdistinct : (decls.map (·.name)).Nodup)
    (hnew : ∀ decl ∈ decls, Builtin.ofName? decl.name = none) :
    (∀ recorded : List Diagnostic, ∃ after after',
      Check.program (decls.map .function) { Checker.start with recorded := recorded } =
        .ok () after ∧
      Check.program (decls'.map .function) { Checker.start with recorded := recorded } =
        .ok () after' ∧
      after.recorded.Perm after'.recorded) ∧
    ∀ (host : Host) (fuel : Nat),
      runStatements host fuel (decls.map .function) =
        runStatements host fuel (decls'.map .function) := by
  constructor
  · intro recorded
    obtain ⟨after, hafter, hfound⟩ :=
      Check.program_finds { Checker.start with recorded := recorded } rfl decls
    obtain ⟨after', hafter', hfound'⟩ :=
      Check.program_finds { Checker.start with recorded := recorded } rfl decls'
    refine ⟨after, after', hafter, hafter', ?_⟩
    have hdeclared := Checker.declareFunctions_perm hperm hdistinct fun decl hdecl =>
      Checker.not_mem_start (hnew decl hdecl) recorded
    rw [hfound, hfound', hdeclared]
    exact (hperm.flatMap_right _).append_left _
  · intro host fuel
    rw [runStatements, runStatements, Eval.program_perm hperm hdistinct]

/-- A function that calls `main` with an argument too many. -/
def ping : FnDecl Stmt :=
  ⟨⟨0, 0⟩, "ping", [⟨"count", .int⟩], .int,
    ⟨[.ret (.call "main" default [.bool true default] default) default], default⟩, default⟩

/-- A `main` that calls the function above with an argument of the wrong type. -/
def pong : FnDecl Stmt :=
  ⟨⟨0, 60⟩, "main", [], .int,
    ⟨[.ret (.call "ping" default [.string "three" default] default) default], default⟩, default⟩

theorem ping_and_pong_in_either_order :
    ([ping, pong].Perm [pong, ping] ∧ ([ping, pong].map (·.name)).Nodup ∧
      ∀ decl ∈ [ping, pong], Builtin.ofName? decl.name = none) ∧
    (∃ after after', Check.program [.function ping, .function pong] Checker.start = .ok () after ∧
      Check.program [.function pong, .function ping] Checker.start = .ok () after' ∧
      after.recorded.Perm after'.recorded ∧ after.recorded.length = 2) ∧
    ∀ (host : Host) (fuel : Nat), runStatements host fuel [.function ping, .function pong] =
      runStatements host fuel [.function pong, .function ping] := by
  have hperm : [ping, pong].Perm [pong, ping] := .swap pong ping []
  have hdistinct : ([ping, pong].map (·.name)).Nodup := by decide
  have hnew : ∀ decl ∈ [ping, pong], Builtin.ofName? decl.name = none := by decide
  obtain ⟨hchecks, hruns⟩ := order_of_functions_irrelevant hperm hdistinct hnew
  obtain ⟨after, after', hafter, hafter', hsame⟩ := hchecks []
  have hcount : after.recorded.length = 2 := by
    rw [← (EStateM.Result.ok.inj hafter).2]
    decide +kernel
  exact ⟨⟨hperm, hdistinct, hnew⟩, ⟨after, after', hafter, hafter', hsame, hcount⟩, hruns⟩

end Declarations

end Quill
