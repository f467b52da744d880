import Quill.Proofs.Checking
import Quill.Proofs.Contents
import Quill.Proofs.ReturnPaths
import Quill.Proofs.Watch

/-!
# What checking rules out at run time

The checker goes through every statement that can ever run: those at the top, and those in the
bodies of all functions, however deeply declared.  A program that it accepts therefore assigns only
to variables and to elements of variables, also in functions that are reached through values, and
none of its statements at the top returns.
-/

namespace Quill

/-! ### What the checker has seen -/

/-- All assignments in the body of the function have targets that can be assigned to. -/
def FnDecl.assignsProperly (decl : FnDecl Stmt) : Bool :=
  (Stmt.partsOfBlock decl.body).all fun part => part.exprs.all Expr.assignsProperly

/-- All assignments in the body of the function, and in the bodies of all functions declared inside
it, have targets that can be assigned to. -/
inductive FnDecl.Proper : FnDecl Stmt → Prop
  | intro {decl : FnDecl Stmt} (assigns : decl.assignsProperly = true)
    (inner : ∀ other, .function other ∈ Stmt.partsOfBlock decl.body → Proper other) : Proper decl

/-- The statement itself is in order in a frame: its assignments have targets that can be assigned
to, the function that it declares is proper, and it is no return in the global frame. -/
structure Stmt.ProperIn (frame : FrameId) (stmt : Stmt) : Prop where
  assigns : ∀ expr ∈ stmt.exprs, expr.assignsProperly = true
  function : ∀ decl, stmt = .function decl → decl.Proper
  confined : frame = Scope.global → stmt.isReturn = false

/-- A statement that neither declares nor returns is in order as soon as its assignments are. -/
theorem Stmt.ProperIn.of_exprs {frame : FrameId} {stmt : Stmt} (hdecl : stmt.decl? = none)
    (hreturn : stmt.isReturn = false) (h : ∀ expr ∈ stmt.exprs, expr.assignsProperly = true) :
    stmt.ProperIn frame where
  assigns := h
  function decl hstmt := by
    subst hstmt
    cases hdecl
  confined _ := hreturn

theorem FnDecl.proper_of_parts {decl : FnDecl Stmt} {frame : FrameId}
    (h : ∀ part ∈ Stmt.partsOfBlock decl.body, part.ProperIn frame) : decl.Proper := by
  refine ⟨?_, fun other hmem => (h _ hmem).function other rfl⟩
  refine List.all_eq_true.mpr fun part hpart => ?_
  exact List.all_eq_true.mpr fun expr hexpr => (h part hpart).assigns expr hexpr

/-- In the global frame there is no return type. -/
theorem Scope.context_global {V : Type} {scope : Scope V} (h : scope.current = Scope.global) :
    scope.context = none := by
  have hframes : scope.frames = #[] := Array.eq_empty_of_size_eq_zero h
  simp [context, chain, depth, current, hframes, chainFrom, frame?]

namespace Check

mutual

/-- Every statement that runs when a checked statement does is in order. -/
theorem properIn_of_passes_stmt {before after : Checker} : (stmt : Stmt) →
    Passes (Check.stmt stmt) before after →
    ∀ part ∈ stmt.parts, part.ProperIn before.scope.current
  | .function decl, h => by
      obtain ⟨middle, -, hfunction⟩ := h.bind (tidy_function decl)
      have hproper := proper_of_passes_function decl hfunction
      -- The body does not run with the declaration: the declaration is its only part.
      intro part hpart
      obtain rfl : part = .function decl := by simpa [Stmt.parts] using hpart
      refine ⟨by simp [Stmt.exprs], fun other hother => ?_, fun _ => rfl⟩
      cases hother
      exact hproper
  | .ret value span, h => by
      obtain ⟨hclean, hcontext, -⟩ := h.ret
      intro part hpart
      obtain rfl : part = .ret value span := by simpa [Stmt.parts] using hpart
      refine ⟨?_, fun _ hother => Stmt.noConfusion hother, fun hglobal => ?_⟩
      · simpa [Stmt.exprs] using assignsProperly_of_clean value hclean
      -- A return passes the checker only where a return type is known.
      · rw [Scope.context_global hglobal] at hcontext
        cases hcontext
  | .bind name value span, h => by
      obtain ⟨-, hclean, -⟩ := h.bindName
      intro part hpart
      obtain rfl : part = .bind name value span := by simpa [Stmt.parts] using hpart
      apply Stmt.ProperIn.of_exprs rfl rfl
      simpa [Stmt.exprs] using assignsProperly_of_clean value hclean
  | .expr value, h => by
      obtain ⟨hclean, -⟩ := h.expr
      intro part hpart
      obtain rfl : part = .expr value := by simpa [Stmt.parts] using hpart
      apply Stmt.ProperIn.of_exprs rfl rfl
      simpa [Stmt.exprs] using assignsProperly_of_clean value hclean
  | .branch ⟨condition, body, span⟩ others otherwise, h => by
      obtain ⟨middle, hfirst, hrest⟩ := h.bind ((tidy_arms others).bind (tidy_lastBlock otherwise))
      obtain ⟨later, hothers, hlast⟩ := hrest.bind (tidy_lastBlock otherwise)
      -- Checking an arm returns to the frame it started in, so all parts are checked in one frame.
      have hmiddle := hfirst.current_eq (tidy_arm _)
      have hlater := hothers.current_eq (tidy_arms others)
      obtain ⟨hcondition, hbody⟩ := properIn_of_passes_arm ⟨condition, body, span⟩ hfirst
      obtain ⟨hconditions, hbodies⟩ := properIn_of_passes_arms others hothers
      have hend := properIn_of_passes_lastBlock otherwise hlast
      rw [hlater, hmiddle] at hend
      rw [hmiddle] at hbodies
      intro part hpart
      simp only [Stmt.parts, List.mem_cons, List.mem_append] at hpart
      rcases hpart with rfl | (hpart | hpart) | hpart
      · apply Stmt.ProperIn.of_exprs rfl rfl
        simpa [Stmt.exprs] using ⟨hcondition, hconditions⟩
      · exact hbody part hpart
      · exact hbodies part hpart
      · exact hend part hpart
  | .loop condition body span, h => by
      obtain ⟨middle, hcondition, hbody⟩ := h.bind (tidy_block body)
      obtain ⟨hclean, -, hscope⟩ := hcondition.expect
      have hparts := properIn_of_passes_block body hbody
      rw [hscope] at hparts
      intro part hpart
      rcases List.mem_cons.mp hpart with rfl | hpart
      · apply Stmt.ProperIn.of_exprs rfl rfl
        simpa [Stmt.exprs] using assignsProperly_of_clean condition hclean
      · exact hparts part hpart
  | .range counter lower upper body span, h => by
      obtain ⟨middle, hhead, hbody⟩ := h.bind (tidy_block body)
      have hcurrent := hhead.current_eq (Tidy.change (Checker.moves_rangeHead counter lower upper))
      obtain ⟨hlower, hupper, -⟩ := hhead.rangeHead
      have hparts := properIn_of_passes_block body hbody
      rw [hcurrent] at hparts
      intro part hpart
      rcases List.mem_cons.mp hpart with rfl | hpart
      · apply Stmt.ProperIn.of_exprs rfl rfl
        simpa [Stmt.exprs] using ⟨assignsProperly_of_clean lower hlower.1,
          assignsProperly_of_clean upper hupper.1⟩
      · exact hparts part hpart
  | .block inner, h => by
      have hparts := properIn_of_passes_block inner h
      intro part hpart
      rcases List.mem_cons.mp hpart with rfl | hpart
      · exact .of_exprs rfl rfl (by simp [Stmt.exprs])
      · exact hparts part hpart

theorem proper_of_passes_function {before after : Checker} : (decl : FnDecl Stmt) →
    Passes (Check.function decl) before after → decl.Proper
  | ⟨id, name, parameters, returnType, body, span⟩, h => by
      obtain ⟨middle, hframe, -⟩ := h.bind (Tidy.change (Checker.moves_record _))
      obtain ⟨⟨inner, hinner⟩, -⟩ := hframe.inFrame
        ((Tidy.change (Checker.moves_bindParameters _)).bind (tidy_block body))
      obtain ⟨bound, -, hbody⟩ := hinner.bind (tidy_block body)
      exact FnDecl.proper_of_parts (properIn_of_passes_block body hbody)

theorem properIn_of_passes_arm {before after : Checker} : (arm : Arm Stmt) →
    Passes (Check.arm arm) before after →
    arm.condition.assignsProperly = true ∧
      ∀ part ∈ Stmt.partsOfBlock arm.body, part.ProperIn before.scope.current
  | ⟨condition, body, span⟩, h => by
      obtain ⟨middle, hcondition, hbody⟩ := h.bind (tidy_block body)
      obtain ⟨hclean, -, hscope⟩ := hcondition.expect
      have hparts := properIn_of_passes_block body hbody
      rw [hscope] at hparts
      exact ⟨assignsProperly_of_clean condition hclean, hparts⟩

theorem properIn_of_passes_arms {before after : Checker} : (arms : List (Arm Stmt)) →
    Passes (Check.arms arms) before after →
    (∀ arm ∈ arms, arm.condition.assignsProperly = true) ∧
      ∀ part ∈ Stmt.partsOfArms arms, part.ProperIn before.scope.current
  | [], _ => ⟨by simp, by simp [Stmt.partsOfArms]⟩
  | ⟨condition, body, span⟩ :: others, h => by
      obtain ⟨middle, hfirst, hothers⟩ := h.bind (tidy_arms others)
      have hcurrent := hfirst.current_eq (tidy_arm _)
      obtain ⟨hcondition, hbody⟩ := properIn_of_passes_arm ⟨condition, body, span⟩ hfirst
      obtain ⟨hconditions, hbodies⟩ := properIn_of_passes_arms others hothers
      rw [hcurrent] at hbodies
      refine ⟨by simpa using ⟨hcondition, hconditions⟩, fun part hpart => ?_⟩
      rcases List.mem_append.mp hpart with hpart | hpart
      · exact hbody part hpart
      · exact hbodies part hpart

theorem properIn_of_passes_lastBlock {before after : Checker} : (last : Option (Block Stmt)) →
    Passes (Check.lastBlock last) before after →
    ∀ part ∈ Stmt.partsOfLast last, part.ProperIn before.scope.current
  | some inner, h => properIn_of_passes_block inner h
  | none, _ => by simp [Stmt.partsOfLast]

theorem properIn_of_passes_block {before after : Checker} : (block : Block Stmt) →
    Passes (Check.block block) before after →
    ∀ part ∈ Stmt.partsOfBlock block, part.ProperIn before.scope.current
  | ⟨body, _⟩, h => properIn_of_passes_stmts body h

theorem properIn_of_passes_stmts {before after : Checker} : (stmts : List Stmt) →
    Passes (Check.stmts stmts) before after →
    ∀ part ∈ Stmt.partsOfAll stmts, part.ProperIn before.scope.current
  | [], _ => by simp [Stmt.partsOfAll]
  | stmt :: stmts, h => by
      obtain ⟨middle, hfirst, hothers⟩ := h.bind (tidy_stmts stmts)
      have hcurrent := hfirst.current_eq (tidy_stmt stmt)
      have hrest := properIn_of_passes_stmts stmts hothers
      rw [hcurrent] at hrest
      intro part hpart
      rcases List.mem_append.mp hpart with hpart | hpart
      · exact properIn_of_passes_stmt stmt hfirst part hpart
      · exact hrest part hpart

end

/-- What is known of the statements of a program that was checked without problems. -/
theorem properIn_of_passes_program {program : List Stmt} {after : Checker}
    (h : Passes (Check.program program) Checker.start after) :
    ∀ stmt ∈ program, ∀ part ∈ stmt.parts, part.ProperIn Scope.global := by
  obtain ⟨declared, hdeclare, hstmts⟩ := h.bind (tidy_stmts program)
  have hcurrent : declared.scope.current = Scope.global :=
    hdeclare.current_eq (Tidy.change (Checker.moves_declareFunctions program))
  have hparts := properIn_of_passes_stmts program hstmts
  rw [hcurrent] at hparts
  exact fun stmt hstmt part hpart => hparts part (Stmt.mem_partsOfAll.mpr ⟨stmt, hstmt, hpart⟩)

end Check

/-! ### Runs of accepted programs -/

namespace Eval

/-- What can be assigned to denotes a variable or a part of one, in whatever state. -/
theorem ends_locate_isStored {host : Host} {invoke : Invoke} : (target : Expr) →
    target.isAssignable = true → Ends (locate host invoke target) (·.isStored = true)
  | .name ident _, _ => Ensures.pure fun _ _ => rfl
  | .subscript base index _, htarget => by
      have hbase : Ends (locate host invoke base) (·.isStored = true) :=
        ends_locate_isStored base htarget
      refine Ensures.bind hbase fun location machine hstored => ?_
      have hrest : Ends (do
          let place ← integer (value (locate host invoke index))
          return Location.element location place) (·.isStored = true) :=
        Ends.bind fun place => Ensures.pure fun _ _ => hstored
      exact hrest machine trivial
  | .int _ _, htarget | .float _ _, htarget | .string _ _, htarget | .bool _ _, htarget
  | .array _ _, htarget | .call _ _ _ _, htarget | .binary _ _ _ _, htarget
  | .assign _ _ _, htarget => by exact Bool.noConfusion htarget

/-- Every function that is called has to assign properly. -/
def assignmentWatch : Watch where
  enters decl _ := decl.assignsProperly
  leaves _ _ := true
  alarm := .notAssignable
  audible := .inr rfl

variable (host : Host)

/-- By induction on the depth of calls: only proper functions are called. -/
theorem governs_proper_watchedWithin (depth : Nat) :
    (Discipline.functions FnDecl.Proper).Governs (watchedWithin host assignmentWatch depth) := by
  have hbodies : ∀ decl, FnDecl.Proper decl → ∀ part ∈ Stmt.partsOfBlock decl.body,
      (Discipline.functions FnDecl.Proper).Admits part := by
    rintro decl ⟨hassigns, hinner⟩ part hpart
    refine ⟨fun _ expr hexpr => ?_, fun other hother => hinner other (hother ▸ hpart)⟩
    exact List.all_eq_true.mp (List.all_eq_true.mp hassigns part hpart) expr hexpr
  induction depth with
  | zero => exact fun _ _ _ _ _ _ hm => ⟨hm, Discipline.permits_outOfFuel⟩
  | succ depth ih =>
      have hframes := governs_frames_watchedWithin host assignmentWatch depth
      refine governs_watchedCall (governs_functions_call hbodies hframes ih depth) ?_ ?_
      · rintro decl frame arguments ⟨hassigns, -⟩
        exact .inl hassigns
      · exact fun _ _ _ => .inl rfl

/-- The watched run of a checked program keeps to the discipline, and no return gets out of it. -/
theorem watchedProgram_permits {statements : List Stmt} (fuel : Nat)
    (h : ∀ stmt ∈ statements, ∀ part ∈ stmt.parts, part.ProperIn Scope.global) :
    Ensures (Discipline.functions FnDecl.Proper).machine
      (watchedProgram host assignmentWatch fuel statements) (fun _ _ => True)
      (fun halt _ => (Discipline.functions FnDecl.Proper).Permits halt) := by
  have hinvoke := governs_proper_watchedWithin host fuel
  -- The statements at the top keep to the discipline, and none of them ends in a return.
  have hstmts : Ensures (Discipline.functions FnDecl.Proper).machine
      (topLevel host (watchedWithin host assignmentWatch fuel) fuel statements)
      (fun _ => (Discipline.functions FnDecl.Proper).machine)
      (fun halt _ => (Discipline.functions FnDecl.Proper).Permits halt) := by
    refine Ensures.topLevel fun stmt hstmt _ => ?_
    have hkeeps : (Discipline.functions FnDecl.Proper).Keeps
        (Eval.stmt host (watchedWithin host assignmentWatch fuel) fuel stmt) _ :=
      Discipline.keeps_stmt hinvoke fuel stmt fun part hpart =>
        ⟨fun _ => (h stmt hstmt part hpart).assigns, (h stmt hstmt part hpart).function⟩
    have hends : Ends (Eval.stmt host (watchedWithin host assignmentWatch fuel) fuel stmt) GoesOn :=
      ends_stmt_goesOn stmt fun part hpart => (h stmt hstmt part hpart).confined rfl
    refine (hkeeps.and hends).weaken (fun _ hm => ⟨hm, trivial⟩) ?_ fun _ _ hstop => hstop.1.2
    rintro flow machine ⟨⟨hm, -⟩, rfl⟩
    exact ⟨hm, fun _ hreturned => Flow.noConfusion hreturned⟩
  -- What is called as `main` is a value of the scope, and such functions are proper.
  have hmain : Ensures (Discipline.functions FnDecl.Proper).machine
      (callMain (watchedWithin host assignmentWatch fuel))
      (fun _ => (Discipline.functions FnDecl.Proper).machine)
      (fun halt _ => (Discipline.functions FnDecl.Proper).Permits halt) := by
    refine Ensures.callMain (fun _ _ _ hfault => Halt.noConfusion hfault) fun decl frame _ => ?_
    intro machine hm
    have hdecl := Scope.All.get hm.1 hm.2
    exact ((hinvoke decl frame [] hdecl (by simp)).weaken (fun _ hm => hm) (fun _ _ hm => hm.1)
      fun _ _ hstop => hstop.2) machine hm.1
  refine (Ensures.programVia ?_ hstmts hmain ?_).imp fun _ _ _ => trivial
  · refine fun machine hm => functions_declareFunctions hm fun decl hmem => ?_
    exact (h _ hmem _ (by simp [Stmt.parts])).function decl rfl
  · exact fun _ _ _ => Discipline.permits_of_isOrdinary rfl

theorem functions_forbids {P : FnDecl Stmt → Prop} {fault : Fault}
    (h : (Discipline.functions P).Permits (.fault fault)) : fault.isOrdinary = true :=
  (h fault rfl).resolve_right fun hother => hother.2 trivial

/-- In no run of a program that compiles does an assignment miss a variable, or a return leave the
statements at the top: each function that is called assigns properly, as do the statements at the
top, proper targets denote variables or parts of them, and the statements at the top go on. -/
theorem compiled_assigns_to_variables_and_never_returns {sources : List Source}
    {statements : List Stmt} (h : compile sources = .ok statements) (fuel : Nat) :
    (∀ final, program host fuel statements .start ≠ .error (.fault .notAssignable) final) ∧
    (∀ final, program host fuel statements .start ≠ .error (.fault .returnOutsideFunction) final) ∧
    watchedProgram host assignmentWatch fuel statements .start =
      program host fuel statements .start ∧
    (∀ stmt ∈ statements, stmt.decl? = none →
      (∀ part ∈ stmt.parts, ∀ expr ∈ part.exprs, expr.assignsProperly = true) ∧
      ∀ invoke, Ends (Eval.stmt host invoke fuel stmt) GoesOn) ∧
    ∀ target, target.isAssignable = true →
      ∀ invoke, Ends (locate host invoke target) (·.isStored = true) := by
  obtain ⟨after, hpasses⟩ := passes_of_compile h
  have hproper := Check.properIn_of_passes_program hpasses
  have hrun := watchedProgram_permits host fuel hproper .start (functions_start FnDecl.Proper)
  have hforbids : ∀ fault, fault.isOrdinary = false → ∀ final,
      watchedProgram host assignmentWatch fuel statements .start ≠ .error (.fault fault) final := by
    intro fault hfault final heq
    rw [heq] at hrun
    rw [functions_forbids hrun] at hfault
    exact Bool.noConfusion hfault
  -- The alarm of the watch is a fault that is ruled out, so the watch changes nothing.
  have hsame := watchedProgram_eq host assignmentWatch (hforbids .notAssignable rfl)
  refine ⟨?_, ?_, hsame, fun stmt hstmt _ => ⟨fun part hpart => ?_, fun invoke => ?_⟩,
    fun target htarget invoke => ends_locate_isStored target htarget⟩
  · rw [← hsame]
    exact hforbids .notAssignable rfl
  · rw [← hsame]
    exact hforbids .returnOutsideFunction rfl
  · exact (hproper stmt hstmt part hpart).assigns
  · exact ends_stmt_goesOn stmt fun part hpart => (hproper stmt hstmt part hpart).confined rfl

/-- Assignments at the top, in a loop there, and in a function inside of another one that is called
through a variable. -/
def nestedAssignments : List Source :=
  [⟨"rows", "let a = [[1]] for i in 0..1 { a[i][0] = 2 } " ++
    "fn main() { fn f() { a = [[3]] } let g = f g() }"⟩]

theorem nestedAssignments_confined :
    ∃ statements, compile nestedAssignments = .ok statements ∧ ∀ draw fuel,
      let host := Host.accepting draw
      watchedProgram host assignmentWatch fuel statements .start =
          program host fuel statements .start ∧
        ∀ final, program host fuel statements .start ≠
          .error (.fault .returnOutsideFunction) final := by
  have hcompiles : (compile nestedAssignments).isOk = true := by decide +kernel
  cases hcompile : compile nestedAssignments with
  | error failure =>
      rw [hcompile] at hcompiles
      exact Bool.noConfusion hcompiles
  | ok statements =>
      refine ⟨statements, rfl, fun draw fuel => ?_⟩
      obtain ⟨-, hreturn, hwatch, -⟩ :=
        compiled_assigns_to_variables_and_never_returns (.accepting draw) hcompile fuel
      exact ⟨hwatch, hreturn⟩

end Eval

end Quill
