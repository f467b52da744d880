import Quill.Proofs.Binding.Programs
import Quill.Proofs.Checking

/-!
# Unbound names in programs that were checked

The checker looks every name up when it comes by, in a scope that has only grown.  A name that the
program declares nowhere but as a parameter, and that is not there from the start, can thus be
mentioned below the parameter only.  So a run of a program that was checked complains about a
variable or about a function inside of a body, and there only if the text does not cover the name.

It may do that, because the checker does not ask on which way a mention is reached.
-/

namespace Quill

variable {name : String}

/-! ### Expressions -/

mutual

/-- All names in an expression without problems have a type. -/
theorem isSome_of_clean {scope : Scope Ty} : (expr : Expr) → (infer scope expr).problems = [] →
    ∀ name ∈ expr.mentions, (scope.get? name).isSome = true
  | .int _ _, _, _, hmem | .float _ _, _, _, hmem | .string _ _, _, _, hmem
  | .bool _ _, _, _, hmem => nomatch hmem
  | .name ident span, h, name, hmem => by
      obtain rfl : name = ident := by simpa using hmem
      cases hfound : scope.get? name with
      | some type => rfl
      | none =>
          rw [infer, hfound] at h
          exact absurd h (List.cons_ne_nil _ _)
  | .array elements span, h, name, hmem => by
      rw [infer, inferAll_eq_map] at h
      obtain ⟨_, -, helements⟩ := Typed.array_clean h
      exact isSome_of_clean_all elements
        (fun expr hexpr => (helements _ (List.mem_map_of_mem hexpr)).1) name hmem
  | .call callee calleeSpan arguments span, h, name, hmem => by
      rw [infer, inferAll_eq_map] at h
      obtain ⟨harguments, hcallee⟩ := Typed.call_clean h
      rcases List.mem_cons.mp hmem with rfl | hmem
      · rcases hcallee with hfound | hfound <;> rw [hfound] <;> rfl
      · exact isSome_of_clean_all arguments
          (fun expr hexpr => harguments _ (List.mem_map_of_mem hexpr)) name hmem
  | .subscript base index span, h, name, hmem => by
      rw [infer] at h
      obtain ⟨hbase, hindex, -⟩ := Typed.subscript_clean h
      rw [Expr.mentions_subscript] at hmem
      exact (List.mem_append.mp hmem).elim (isSome_of_clean base hbase name)
        (isSome_of_clean index hindex name)
  | .binary operator left right span, h, name, hmem => by
      rw [infer] at h
      obtain ⟨hleft, hright, -⟩ := Typed.binary_clean h
      rw [Expr.mentions_binary] at hmem
      exact (List.mem_append.mp hmem).elim (isSome_of_clean left hleft name)
        (isSome_of_clean right hright name)
  | .assign target value span, h, name, hmem => by
      obtain ⟨-, htarget, hvalue, -⟩ := infer_assign_clean h
      rw [Expr.mentions_assign] at hmem
      exact (List.mem_append.mp hmem).elim (isSome_of_clean target htarget name)
        (isSome_of_clean value hvalue name)

theorem isSome_of_clean_all {scope : Scope Ty} : (exprs : List Expr) →
    (∀ expr ∈ exprs, (infer scope expr).problems = []) →
    ∀ name ∈ Expr.mentionsAll exprs, (scope.get? name).isSome = true
  | [], _, _, hmem => nomatch hmem
  | expr :: exprs, h, name, hmem => by
      rw [Expr.mentionsAll_cons] at hmem
      exact (List.mem_append.mp hmem).elim
        (isSome_of_clean expr (h expr List.mem_cons_self) name)
        (isSome_of_clean_all exprs (fun other hmem => h other (List.mem_cons_of_mem _ hmem)) name)

end

/-! ### Names that are bound nowhere -/

namespace Scope

variable {V : Type} {scope : Scope V}

/-- No frame of the scope binds the name. -/
def Lacks (name : String) (scope : Scope V) : Prop :=
  ∀ id, name ∉ scope.bindingsOf id

theorem lacks_ofGlobals {globals : List (String × V)} (h : name ∉ globals.map (·.1)) :
    (ofGlobals globals).Lacks name := by
  intro id hbound
  cases id with
  | zero => exact h (mem_ofGlobals.mp hbound)
  | succ index => exact Std.ExtTreeMap.not_mem_empty hbound

theorem Lacks.get? (h : scope.Lacks name) : (scope.get? name).isSome = false := by
  rw [Bool.eq_false_iff]
  intro hsome
  obtain ⟨id, -, hbound⟩ := isSome_get?_iff.mp hsome
  exact h id hbound

theorem Lacks.insert (h : scope.Lacks name) {other : String} (hother : other ≠ name) (value : V) :
    (scope.insert other value).Lacks name := by
  intro id hbound
  rcases mem_bindingsOf_insertIn hbound with hold | ⟨-, hname⟩
  · exact h id hold
  · exact hother hname

theorem Lacks.push (h : scope.Lacks name) (parent : FrameId) (context : Option Ty) :
    (scope.push parent context).Lacks name := by
  intro id
  rw [bindingsOf_pushed]
  exact h id

theorem bindingsOf_withLocals_locals (scope : Scope V) (count : Nat) (id : FrameId) :
    (scope.withLocals scope.locals count).bindingsOf id = scope.bindingsOf id := by
  induction scope using shapes with
  | global globals pushed => cases id <;> rfl
  | inner globals below frame pushed =>
      rw [locals_push, withLocals_push]
      cases id <;> rfl

theorem Lacks.withLocals (h : scope.Lacks name) (count : Nat) :
    (scope.withLocals scope.locals count).Lacks name := by
  intro id
  rw [bindingsOf_withLocals_locals]
  exact h id

end Scope

/-! ### What the checker has seen -/

namespace Expr

theorem covers_of_lacks {scope : Scope Ty} {expr : Expr} (h : scope.Lacks name)
    (hclean : (infer scope expr).problems = []) : expr.covers name false = true := by
  rw [covers, Bool.false_or, Bool.not_eq_true', List.contains_eq_mem, decide_eq_false_iff_not]
  intro hmem
  have hsome := isSome_of_clean expr hclean name hmem
  rw [h.get?] at hsome
  cases hsome

end Expr

namespace Checker

variable {checker : Checker}

theorem lacks_bindParameters {decl : FnDecl Stmt} (h : checker.scope.Lacks name)
    (hnames : ∀ parameter ∈ decl.parameters, parameter.name ≠ name) :
    (checker.bindParameters decl).scope.Lacks name := by
  refine List.foldlRecOn (motive := fun checker : Checker => checker.scope.Lacks name) _ _ h ?_
  intro state hstate parameter hmem
  simp only [Checker.insert, scope_complainIfBound]
  exact hstate.insert (hnames parameter hmem) _

theorem lacks_declareFunctions {program : List Stmt} (h : checker.scope.Lacks name)
    (hnames : ∀ decl ∈ Program.functions program, decl.name ≠ name) :
    (checker.declareFunctions program).scope.Lacks name := by
  refine List.foldlRecOn (motive := fun checker : Checker => checker.scope.Lacks name) _ _ h ?_
  intro state hstate decl hmem
  rw [Checker.declare]
  split
  · exact hstate
  · exact hstate.insert (hnames decl hmem) _

end Checker

namespace Check

variable {before after : Checker}

mutual

/-- A statement without problems covers a name that is bound nowhere and not declared in it. -/
theorem covers_of_passes_stmt {before after : Checker} : (stmt : Stmt) →
    Passes (Check.stmt stmt) before after → before.scope.Lacks name → name ∉ stmt.names →
    stmt.covers name false = true ∧ after.scope.Lacks name
  | .function ⟨id, declared, parameters, returnType, body, span⟩, h, hlacks, hnames => by
      simp only [Stmt.names, List.mem_cons, not_or] at hnames
      obtain ⟨hself, hbody⟩ := hnames
      obtain ⟨middle, hdeclare, hfunction⟩ := h.bind (tidy_function _)
      obtain ⟨rfl, -⟩ := hdeclare.change
      have hmiddle := covers_of_passes_function _ hfunction ?_ hbody
      · rw [Stmt.covers_function, Bool.false_or, beq_eq_false_iff_ne.mpr (Ne.symm hself)]
        exact hmiddle
      · split
        · exact hlacks
        · simp only [Checker.declareLocal, Checker.insert, Checker.scope_complainIfBound]
          exact hlacks.insert (Ne.symm hself) _
  | .ret value span, h, hlacks, _ => by
      obtain ⟨hclean, -, hscope⟩ := h.ret
      rw [hscope]
      exact ⟨Expr.covers_of_lacks hlacks hclean, hlacks⟩
  | .bind other value span, h, hlacks, hnames => by
      obtain ⟨-, hclean, hscope⟩ := h.bindName
      rw [hscope]
      have hother : other ≠ name := fun heq => hnames (heq ▸ List.mem_singleton.mpr rfl)
      exact ⟨Expr.covers_of_lacks hlacks hclean, hlacks.insert hother _⟩
  | .expr value, h, hlacks, _ => by
      obtain ⟨hclean, hscope⟩ := h.expr
      rw [hscope]
      exact ⟨Expr.covers_of_lacks hlacks hclean, hlacks⟩
  | .branch ⟨condition, body, span⟩ others otherwise, h, hlacks, hnames => by
      simp only [Stmt.names, List.mem_append, not_or] at hnames
      obtain ⟨middle, hfirst, hrest⟩ := h.bind ((tidy_arms others).bind (tidy_lastBlock otherwise))
      obtain ⟨later, hothers, hlast⟩ := hrest.bind (tidy_lastBlock otherwise)
      obtain ⟨hcondition, hbody, hmiddle⟩ :=
        covers_of_passes_arm ⟨condition, body, span⟩ hfirst hlacks hnames.1.1
      obtain ⟨harms, hlater⟩ := covers_of_passes_arms others hothers hmiddle hnames.1.2
      obtain ⟨hend, hafter⟩ := covers_of_passes_lastBlock otherwise hlast hlater hnames.2
      refine ⟨?_, hafter⟩
      rw [Stmt.covers, hcondition, hbody, harms, hend]
      rfl
  | .loop condition body span, h, hlacks, hnames => by
      obtain ⟨middle, hcondition, hbody⟩ := h.bind (tidy_block body)
      obtain ⟨hclean, -, hscope⟩ := hcondition.expect
      obtain ⟨hcovers, hafter⟩ := covers_of_passes_block body hbody (hscope ▸ hlacks) hnames
      refine ⟨?_, hafter⟩
      rw [Stmt.covers, Expr.covers_of_lacks hlacks hclean, hcovers]
      rfl
  | .range counter lower upper body span, h, hlacks, hnames => by
      simp only [Stmt.names, List.mem_cons, not_or] at hnames
      obtain ⟨hself, hinner⟩ := hnames
      obtain ⟨middle, hhead, hbody⟩ := h.bind (tidy_block body)
      obtain ⟨hlower, hupper, hscope⟩ := hhead.rangeHead
      have hmiddle : middle.scope.Lacks name := by
        rw [hscope]
        exact hlacks.insert (Ne.symm hself) _
      obtain ⟨hcovers, hafter⟩ := covers_of_passes_block body hbody hmiddle hinner
      refine ⟨?_, hafter⟩
      rw [Stmt.covers, Expr.covers_of_lacks hlacks hlower.1, Expr.covers_of_lacks hlacks hupper.1,
        Bool.false_or, beq_eq_false_iff_ne.mpr (Ne.symm hself), hcovers]
      rfl
  | .block inner, h, hlacks, hnames => covers_of_passes_block inner h hlacks hnames

theorem covers_of_passes_function {before after : Checker} : (decl : FnDecl Stmt) →
    Passes (Check.function decl) before after → before.scope.Lacks name →
    name ∉ Stmt.namesOfBlock decl.body →
    decl.covers name false = true ∧ after.scope.Lacks name
  | ⟨id, declared, parameters, returnType, body, span⟩, h, hlacks, hnames => by
      obtain ⟨middle, hframe, hrecord⟩ := h.bind (Tidy.change (Checker.moves_record _))
      obtain ⟨⟨inner, hinner⟩, count, hscope⟩ := hframe.inFrame
        ((Tidy.change (Checker.moves_bindParameters _)).bind (tidy_block body))
      obtain ⟨bound, hparameters, hbody⟩ := hinner.bind (tidy_block body)
      refine ⟨?_, ?_⟩
      · rw [FnDecl.covers, Bool.false_or]
        cases hany : parameters.any (·.name == name) with
        -- Below a parameter with the name, every mention of it is covered.
        | true => exact Stmt.coversBlock_true name body
        | false =>
            obtain ⟨rfl, -⟩ := hparameters.change
            have hother : ∀ parameter ∈ parameters, parameter.name ≠ name := by
              simpa using hany
            exact (covers_of_passes_block body hbody
              (Checker.lacks_bindParameters (hlacks.push _ _) hother) hnames).1
      · rw [hrecord.record.2, hscope]
        exact hlacks.withLocals count

theorem covers_of_passes_arm {before after : Checker} : (arm : Arm Stmt) →
    Passes (Check.arm arm) before after → before.scope.Lacks name →
    name ∉ Stmt.namesOfBlock arm.body →
    arm.condition.covers name false = true ∧ Stmt.coversBlock name false arm.body = true ∧
      after.scope.Lacks name
  | ⟨condition, body, span⟩, h, hlacks, hnames => by
      obtain ⟨middle, hcondition, hbody⟩ := h.bind (tidy_block body)
      obtain ⟨hclean, -, hscope⟩ := hcondition.expect
      exact ⟨Expr.covers_of_lacks hlacks hclean,
        covers_of_passes_block body hbody (hscope ▸ hlacks) hnames⟩

theorem covers_of_passes_arms {before after : Checker} : (arms : List (Arm Stmt)) →
    Passes (Check.arms arms) before after → before.scope.Lacks name →
    name ∉ Stmt.namesOfArms arms →
    Stmt.coversArms name false arms = true ∧ after.scope.Lacks name
  | [], h, hlacks, _ => by
      obtain ⟨rfl, -⟩ := Passes.change (f := id) h
      exact ⟨rfl, hlacks⟩
  | ⟨condition, body, span⟩ :: others, h, hlacks, hnames => by
      simp only [Stmt.namesOfArms, List.mem_append, not_or] at hnames
      obtain ⟨middle, hfirst, hothers⟩ := h.bind (tidy_arms others)
      obtain ⟨hcondition, hbody, hmiddle⟩ :=
        covers_of_passes_arm ⟨condition, body, span⟩ hfirst hlacks hnames.1
      obtain ⟨harms, hafter⟩ := covers_of_passes_arms others hothers hmiddle hnames.2
      refine ⟨?_, hafter⟩
      rw [Stmt.coversArms, hcondition, hbody, harms]
      rfl

theorem covers_of_passes_lastBlock {before after : Checker} : (last : Option (Block Stmt)) →
    Passes (Check.lastBlock last) before after → before.scope.Lacks name →
    name ∉ Stmt.namesOfLast last →
    Stmt.coversLast name false last = true ∧ after.scope.Lacks name
  | some inner, h, hlacks, hnames => covers_of_passes_block inner h hlacks hnames
  | none, h, hlacks, _ => by
      obtain ⟨rfl, -⟩ := Passes.change (f := id) h
      exact ⟨rfl, hlacks⟩

theorem covers_of_passes_block {before after : Checker} : (block : Block Stmt) →
    Passes (Check.block block) before after → before.scope.Lacks name →
    name ∉ Stmt.namesOfBlock block →
    Stmt.coversBlock name false block = true ∧ after.scope.Lacks name
  | ⟨body, _⟩, h, hlacks, hnames => by
      obtain ⟨hcovers, hafter⟩ := covers_of_passes_stmts body h hlacks hnames
      exact ⟨Stmt.coversAll_of_forall hcovers false, hafter⟩

theorem covers_of_passes_stmts {before after : Checker} : (stmts : List Stmt) →
    Passes (Check.stmts stmts) before after → before.scope.Lacks name →
    name ∉ Stmt.namesOfAll stmts →
    (∀ stmt ∈ stmts, stmt.covers name false = true) ∧ after.scope.Lacks name
  | [], h, hlacks, _ => by
      obtain ⟨rfl, -⟩ := Passes.change (f := id) h
      exact ⟨fun _ hnone => absurd hnone List.not_mem_nil, hlacks⟩
  | stmt :: stmts, h, hlacks, hnames => by
      simp only [Stmt.namesOfAll, List.mem_append, not_or] at hnames
      obtain ⟨middle, hfirst, hothers⟩ := h.bind (tidy_stmts stmts)
      obtain ⟨hcovers, hmiddle⟩ := covers_of_passes_stmt stmt hfirst hlacks hnames.1
      obtain ⟨hrest, hafter⟩ := covers_of_passes_stmts stmts hothers hmiddle hnames.2
      exact ⟨List.forall_mem_cons.mpr ⟨hcovers, hrest⟩, hafter⟩

end

end Check

namespace Program

variable {program : List Stmt}

theorem functions_cons {decl : FnDecl Stmt} {others : List Stmt} :
    functions (.function decl :: others) = decl :: functions others := rfl

/-- The names that a program declares are those of the functions at its top and the others. -/
theorem mem_names_iff : name ∈ Stmt.namesOfAll program ↔
    name ∈ (functions program).map (·.name) ∨ name ∈ locals program := by
  induction program with
  | nil => exact ⟨.inl, fun h => h.elim id id⟩
  | cons stmt others ih =>
      rw [Stmt.namesOfAll, List.mem_append, ih]
      cases stmt with
      | function decl =>
          rw [functions_cons, List.map_cons, List.mem_cons, locals, List.mem_append, Stmt.names,
            List.mem_cons, or_assoc, or_assoc, or_left_comm (a := name ∈ Stmt.namesOfBlock _)]
      | _ =>
          rw [locals, List.mem_append, or_left_comm]
          · rfl
          · nofun

/-- A program without problems covers all names but those of its variables and of the functions
inside of its bodies. -/
theorem covers_of_passes {after : Checker}
    (h : Check.Passes (Check.program program) Checker.start after) (hname : name ∉ locals program) :
    covers name program = true := by
  rw [covers, Bool.or_eq_true, Bool.or_eq_true, Bool.and_eq_true]
  by_cases hgiven : name ∈ given program
  · exact .inl (.inl (List.contains_iff_mem.mpr hgiven))
  · refine .inl (.inr ?_)
    simp only [given, List.mem_append, not_or] at hgiven
    obtain ⟨middle, hdeclare, hstmts⟩ := h.bind (Check.tidy_stmts program)
    obtain ⟨rfl, -⟩ := hdeclare.change
    have hlacks : (Checker.start.declareFunctions program).scope.Lacks name := by
      apply Checker.lacks_declareFunctions
      · apply Scope.lacks_ofGlobals
        rw [List.map_map]
        exact hgiven.1
      · exact fun decl hmem heq => hgiven.2 (List.mem_map.mpr ⟨decl, hmem, heq⟩)
    have hcovers := (Check.covers_of_passes_stmts program hstmts hlacks
      (mt mem_names_iff.mp (not_or.mpr ⟨hgiven.2, hname⟩))).1
    refine ⟨List.all_eq_true.mpr fun decl hmem => ?_, coversTop_of_forall hcovers false⟩
    obtain ⟨stmt, hstmt, hdecl⟩ := List.mem_filterMap.mp hmem
    obtain rfl := Stmt.eq_function_of_decl? hdecl
    have hself : (decl.name == name) = false :=
      beq_eq_false_iff_ne.mpr fun heq => hgiven.2 (List.mem_map.mpr ⟨decl, hmem, heq⟩)
    have hfunction := hcovers _ hstmt
    rwa [Stmt.covers_function, hself] at hfunction

end Program

/-! ### Runs of compiled programs -/

instance : DecidableEq (Except Failure Unit)
  | .ok (), .ok () => isTrue rfl
  | .error left, .error right =>
    decidable_of_iff (left = right) ⟨congrArg Except.error, Except.error.inj⟩
  | .ok (), .error _ | .error _, .ok () => isFalse nofun

theorem eval_of_result {host : Host} {fuel : Nat} {sources : List Source}
    {statements : List Stmt} {halt : Halt} (hcompile : compile sources = .ok statements)
    (hrun : (run host fuel sources).result = .error (.halt halt)) :
    ∃ final, Eval.program host fuel statements Machine.start = .error halt final := by
  rw [run, hcompile] at hrun
  simp only [runStatements] at hrun
  cases hend : Eval.program host fuel statements Machine.start with
  | ok value final =>
      rw [hend] at hrun
      cases hrun
  | error reason final =>
      rw [hend] at hrun
      cases hrun
      exact ⟨final, rfl⟩

/-- A run of a compiled program that comes upon a name that is not bound.  The name is then that of
a variable or of a function inside of a body, and the text does not bind it on all ways to its
mentions. -/
theorem unbound_name_of_compiled {sources : List Source} {statements : List Stmt} {host : Host}
    {fuel : Nat} {use : Use} (hcompile : compile sources = .ok statements)
    (hrun : (run host fuel sources).result = .error (.halt (.fault (use.complaint name)))) :
    name ∈ Program.locals statements ∧ Program.covers name statements = false := by
  obtain ⟨final, hend⟩ := eval_of_result hcompile hrun
  have huncovered : Program.covers name statements = false := by
    rw [Bool.eq_false_iff]
    intro hcovers
    have hends := Program.ensures_of_covers hcovers host fuel Machine.start rfl
    rw [hend] at hends
    exact hends use rfl
  refine ⟨?_, huncovered⟩
  apply Decidable.byContradiction
  intro hname
  obtain ⟨after, hpasses⟩ := passes_of_compile hcompile
  rw [Program.covers_of_passes hpasses hname] at huncovered
  cases huncovered

-- A declaration in front of the branch covers the mentions behind it, and also those in functions
-- that are declared behind it.
example : (compile [⟨"main.fl",
    "fn main() { let x = 1 if false { x = 2 } fn f() { print(x) } f() }"⟩]).toOption.map
      (Program.covers "x") = some true := by
  decide +kernel

/-- A variable that is declared in an arm that does not run, and read behind the branch. -/
def skippedBinding : List Source :=
  [⟨"main.fl", "fn main() { if false { let x = 1 } print(x) }"⟩]

/-- The checker finds nothing wrong with it, and the run comes upon the name. -/
theorem run_skippedBinding : ∃ statements, compile skippedBinding = .ok statements ∧
    (run (.accepting default) 8 skippedBinding).result =
      .error (.halt (.fault (Use.read.complaint "x"))) := by
  have hcompiles : (compile skippedBinding).isOk = true := by decide +kernel
  cases hcompile : compile skippedBinding with
  | error failure =>
      rw [hcompile] at hcompiles
      exact Bool.noConfusion hcompiles
  | ok statements => exact ⟨statements, rfl, by decide +kernel⟩

/-- So compiling does not exclude such runs. -/
theorem compiled_program_reads_unbound_name :
    ¬ ∀ (sources : List Source) (statements : List Stmt), compile sources = .ok statements →
      ∀ (host : Host) (fuel : Nat) (use : Use) (name : String),
        (run host fuel sources).result ≠ .error (.halt (.fault (use.complaint name))) := by
  intro hnever
  obtain ⟨statements, hcompile, hrun⟩ := run_skippedBinding
  exact hnever _ statements hcompile _ _ _ _ hrun

theorem skippedBinding_uncovered : ∃ statements, compile skippedBinding = .ok statements ∧
    (run (.accepting default) 8 skippedBinding).result =
      .error (.halt (.fault (Use.read.complaint "x"))) ∧
    "x" ∈ Program.locals statements ∧ Program.covers "x" statements = false := by
  obtain ⟨statements, hcompile, hrun⟩ := run_skippedBinding
  exact ⟨statements, hcompile, hrun, unbound_name_of_compiled hcompile hrun⟩

end Quill
