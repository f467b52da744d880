import Quill.Program
import Quill.Proofs.Inference
import Quill.Proofs.Locals

/-!
# How the checker moves

Checking a statement never stops early, only adds to the problems recorded before, and changes the
scope in its innermost frame only.  A check that ends without any problem was therefore without any
all the way, which takes a check of a whole program apart into checks of its parts.
-/

namespace Quill

namespace Checker

/-- The checker after some further work in the same frame. -/
def moved (checker : Checker) (bindings : Bindings Ty) (pushed : Nat)
    (problems : List Diagnostic) : Checker where
  scope := checker.scope.withLocals bindings pushed
  recorded := checker.recorded ++ problems

/-- The change binds names in the innermost frame and adds problems, and does nothing else. -/
def Moves (f : Checker → Checker) : Prop :=
  ∀ checker, ∃ bindings pushed problems, f checker = checker.moved bindings pushed problems

theorem moves_id : Moves id :=
  fun checker => ⟨checker.scope.locals, checker.scope.pushed, [], by simp [moved]⟩

theorem Moves.comp {f g : Checker → Checker} (hg : Moves g) (hf : Moves f) :
    Moves fun checker => g (f checker) := by
  intro checker
  obtain ⟨bindings, pushed, problems, hfirst⟩ := hf checker
  obtain ⟨bindings', pushed', problems', hsecond⟩ := hg (f checker)
  refine ⟨bindings', pushed', problems ++ problems', ?_⟩
  show g (f checker) = _
  rw [hsecond, hfirst]
  simp [moved]

theorem moves_foldl {α : Type} {f : Checker → α → Checker} (h : ∀ item, Moves (f · item))
    (items : List α) : Moves (items.foldl f ·) := by
  induction items with
  | nil => exact moves_id
  | cons item items ih => exact ih.comp (h item)

/-- A change that ends without a problem has not begun with one. -/
theorem Moves.recorded {f : Checker → Checker} (h : Moves f) {checker : Checker}
    (hnil : (f checker).recorded = []) : checker.recorded = [] := by
  obtain ⟨bindings, pushed, problems, hmoved⟩ := h checker
  rw [hmoved] at hnil
  exact (List.append_eq_nil_iff.mp hnil).1

theorem moves_record (problems : List Diagnostic) : Moves (·.record problems) :=
  fun checker => ⟨checker.scope.locals, checker.scope.pushed, problems, by simp [record, moved]⟩

theorem moves_insert (name : String) (type : Ty) : Moves (·.insert name type) := by
  intro checker
  refine ⟨checker.scope.locals.insert name type, checker.scope.pushed, [], ?_⟩
  simp [insert, moved, Scope.insert_eq_withLocals]

theorem moves_complainIfBound (name : String) (problem : Problem) (span : Span) :
    Moves (·.complainIfBound name problem span) := by
  intro checker
  show ∃ bindings pushed problems, checker.complainIfBound name problem span = _
  unfold complainIfBound
  split
  · exact moves_record _ checker
  · exact moves_id checker

theorem scope_complainIfBound (checker : Checker) (name : String) (problem : Problem)
    (span : Span) : (checker.complainIfBound name problem span).scope = checker.scope := by
  unfold complainIfBound
  split
  · rfl
  · rfl

theorem moves_declare (decl : FnDecl Stmt) : Moves (·.declare decl) := by
  intro checker
  show ∃ bindings pushed problems, checker.declare decl = _
  unfold declare
  split
  · exact moves_record _ checker
  · exact moves_insert _ _ checker

theorem moves_declareFunctions (program : List Stmt) : Moves (·.declareFunctions program) :=
  moves_foldl moves_declare _

theorem moves_declareLocal (decl : FnDecl Stmt) : Moves (·.declareLocal decl) :=
  (moves_insert _ _).comp (moves_complainIfBound _ _ _)

theorem moves_bindParameters (decl : FnDecl Stmt) : Moves (·.bindParameters decl) :=
  moves_foldl (fun _ => (moves_insert _ _).comp (moves_complainIfBound _ _ _)) _

theorem moves_expr (expr : Expr) : Moves (·.expr expr) :=
  fun checker => moves_record _ checker

theorem moves_expect (expected : Ty) (expr : Expr) (span : Span) :
    Moves (·.expect expected expr span) :=
  fun checker => moves_record _ checker

theorem moves_ret (value : Expr) (span : Span) : Moves (·.ret value span) :=
  fun checker => moves_record _ checker

theorem moves_bind (name : String) (value : Expr) (span : Span) :
    Moves (·.bind name value span) := by
  intro checker
  have hrest : ∀ typed : Typed,
      Moves fun checked => (checked.record typed.problems).insert name typed.type :=
    fun typed => (moves_insert _ _).comp (moves_record _)
  exact ((hrest (infer (checker.complainIfBound name (.alreadyInScope name) span).scope value)).comp
    (moves_complainIfBound _ _ _)) checker

theorem moves_rangeHead (counter : String) (lower upper : Expr) :
    Moves (·.rangeHead counter lower upper) :=
  (moves_insert _ _).comp ((moves_expect _ _ _).comp (moves_expect _ _ _))

end Checker

namespace Check

/-- What comes after an action that ends starts from where that has ended. -/
theorem run_bind {first next : Check Unit} {checker middle : Checker}
    (h : first checker = .ok () middle) : (first >>= fun _ => next) checker = next middle := by
  show EStateM.bind first (fun _ => next) checker = _
  simp only [EStateM.bind, h]

/-- Whatever the state of the checker, the action ends, having bound names in the innermost frame
and added problems. -/
def Tidy (action : Check Unit) : Prop :=
  ∀ checker, ∃ bindings pushed problems,
    action checker = .ok () (checker.moved bindings pushed problems)

theorem Tidy.change {f : Checker → Checker} (h : Checker.Moves f) : Tidy (Check.change f) := by
  intro checker
  obtain ⟨bindings, pushed, problems, hmoved⟩ := h checker
  exact ⟨bindings, pushed, problems, by simp [Check.change, hmoved]⟩

theorem Tidy.pure : Tidy (Pure.pure ()) :=
  Tidy.change Checker.moves_id

theorem Tidy.bind {first next : Check Unit} (hfirst : Tidy first) (hnext : Tidy next) :
    Tidy (first >>= fun _ => next) := by
  intro checker
  obtain ⟨bindings, pushed, problems, hrun⟩ := hfirst checker
  obtain ⟨bindings', pushed', problems', hrun'⟩ := hnext (checker.moved bindings pushed problems)
  refine ⟨bindings', pushed', problems ++ problems', ?_⟩
  rw [run_bind hrun, hrun']
  simp [Checker.moved]

/-- The frame of a function body is popped again: what stays of the work in it are the problems
found and the number of pushes. -/
theorem Tidy.inFrame_eq {action : Check Unit} (h : Tidy action) (returnType : Ty)
    (checker : Checker) : ∃ inner pushed,
      action { checker with scope := checker.scope.push checker.scope.current (some returnType) } =
        .ok () inner ∧
      checker.recorded <+: inner.recorded ∧
      Check.inFrame returnType action checker =
        .ok () ⟨checker.scope.withLocals checker.scope.locals pushed, inner.recorded⟩ := by
  obtain ⟨bindings, pushed, problems, hrun⟩ :=
    h { checker with scope := checker.scope.push checker.scope.current (some returnType) }
  refine ⟨_, pushed, hrun, ⟨problems, rfl⟩, ?_⟩
  simp [Check.inFrame, hrun, Checker.moved, Scope.pop_withLocals_push]

theorem Tidy.inFrame {returnType : Ty} {action : Check Unit} (h : Tidy action) :
    Tidy (Check.inFrame returnType action) := by
  intro checker
  obtain ⟨inner, pushed, -, ⟨problems, hproblems⟩, hrun⟩ := h.inFrame_eq returnType checker
  exact ⟨checker.scope.locals, pushed, problems, by rw [hrun, ← hproblems]; rfl⟩

mutual

/-- Checking a statement is tidy. -/
theorem tidy_stmt : (stmt : Stmt) → Tidy (Check.stmt stmt)
  | .function decl => by
      -- A function at the top was declared before, any other one is declared now.
      refine Tidy.bind (Tidy.change fun checker => ?_) (tidy_function decl)
      split
      · exact Checker.moves_id checker
      · exact Checker.moves_declareLocal decl checker
  | .ret value span => Tidy.change (Checker.moves_ret value span)
  | .bind name value span => Tidy.change (Checker.moves_bind name value span)
  | .expr value => Tidy.change (Checker.moves_expr value)
  | .branch first others otherwise =>
    (tidy_arm first).bind ((tidy_arms others).bind (tidy_lastBlock otherwise))
  | .loop condition body span =>
    (Tidy.change (Checker.moves_expect .bool condition span)).bind (tidy_block body)
  | .range counter lower upper body span =>
    (Tidy.change (Checker.moves_rangeHead counter lower upper)).bind (tidy_block body)
  | .block inner => tidy_block inner

theorem tidy_function : (decl : FnDecl Stmt) → Tidy (Check.function decl)
  | ⟨_, _, _, _, body, _⟩ =>
    (Tidy.inFrame ((Tidy.change (Checker.moves_bindParameters _)).bind (tidy_block body))).bind
      (Tidy.change (Checker.moves_record _))

theorem tidy_arm : (arm : Arm Stmt) → Tidy (Check.arm arm)
  | ⟨condition, body, span⟩ =>
    (Tidy.change (Checker.moves_expect .bool condition span)).bind (tidy_block body)

theorem tidy_arms : (arms : List (Arm Stmt)) → Tidy (Check.arms arms)
  | [] => Tidy.pure
  | first :: others => (tidy_arm first).bind (tidy_arms others)

theorem tidy_lastBlock : (last : Option (Block Stmt)) → Tidy (Check.lastBlock last)
  | some inner => tidy_block inner
  | none => Tidy.pure

theorem tidy_block : (block : Block Stmt) → Tidy (Check.block block)
  | ⟨body, _⟩ => tidy_stmts body

theorem tidy_stmts : (stmts : List Stmt) → Tidy (Check.stmts stmts)
  | [] => Tidy.pure
  | first :: others => (tidy_stmt first).bind (tidy_stmts others)

end

theorem tidy_program (program : List Stmt) : Tidy (Check.program program) :=
  (Tidy.change (Checker.moves_declareFunctions program)).bind (tidy_stmts program)

/-- The action ends without a problem. -/
def Passes (action : Check Unit) (before after : Checker) : Prop :=
  action before = .ok () after ∧ after.recorded = []

namespace Passes

variable {before after : Checker} {first next action : Check Unit}

/-- A check that ends without a problem has not begun with one. -/
theorem recorded_before (h : Passes action before after) (htidy : Tidy action) :
    before.recorded = [] := by
  obtain ⟨bindings, pushed, problems, hrun⟩ := htidy before
  have hafter : before.moved bindings pushed problems = after := by
    have := hrun.symm.trans h.1
    simpa using this
  have hnil := h.2
  rw [← hafter] at hnil
  exact (List.append_eq_nil_iff.mp hnil).1

/-- Of two checks in a row, both pass if the whole does. -/
theorem bind (h : Passes (first >>= fun _ => next) before after) (hnext : Tidy next) :
    ∃ middle, Passes first before middle ∧ Passes next middle after := by
  obtain ⟨hrun, hnil⟩ := h
  replace hrun : EStateM.bind first (fun _ => next) before = .ok () after := hrun
  unfold EStateM.bind at hrun
  cases hfirst : first before with
  -- What the first check records is still there at the end, so it has recorded nothing.
  | ok value middle =>
      rw [hfirst] at hrun
      exact ⟨middle, ⟨hfirst, recorded_before ⟨hrun, hnil⟩ hnext⟩, hrun, hnil⟩
  | error fault middle =>
      rw [hfirst] at hrun
      cases hrun

theorem change {f : Checker → Checker} (h : Passes (Check.change f) before after) :
    after = f before ∧ (f before).recorded = [] := by
  obtain ⟨hrun, hnil⟩ := h
  have heq : f before = after := by simpa [Check.change] using hrun
  exact ⟨heq.symm, heq ▸ hnil⟩

/-- The body of a function passes in the frame pushed for it, and leaves the frame around it as it
was. -/
theorem inFrame {returnType : Ty} (h : Passes (Check.inFrame returnType action) before after)
    (htidy : Tidy action) :
    (∃ inner, Passes action
      { before with scope := before.scope.push before.scope.current (some returnType) } inner) ∧
      ∃ count, after.scope = before.scope.withLocals before.scope.locals count := by
  obtain ⟨inner, pushed, hinner, -, hrun⟩ := htidy.inFrame_eq returnType before
  obtain ⟨hwhole, hnil⟩ := h
  have heq := (EStateM.Result.ok.inj (hrun.symm.trans hwhole)).2
  rw [← heq] at hnil ⊢
  exact ⟨⟨inner, hinner, hnil⟩, pushed, rfl⟩

/-- The checker is still in the same frame after a check. -/
theorem current_eq (h : Passes action before after) (htidy : Tidy action) :
    after.scope.current = before.scope.current := by
  obtain ⟨bindings, pushed, problems, hrun⟩ := htidy before
  have heq := (EStateM.Result.ok.inj (hrun.symm.trans h.1)).2
  rw [← heq]
  simp [Checker.moved]

/-! ### What single checks that pass have seen -/

section Single

variable {value lower upper : Expr} {span : Span} {name counter : String}

theorem recorded_record (checker : Checker) {problems : List Diagnostic}
    (h : (checker.record problems).recorded = []) : checker.recorded = [] ∧ problems = [] :=
  List.append_eq_nil_iff.mp h

theorem expr (h : Passes (Check.change (·.expr value)) before after) :
    (infer before.scope value).problems = [] ∧ after.scope = before.scope := by
  obtain ⟨rfl, hnil⟩ := h.change
  exact ⟨(recorded_record before hnil).2, rfl⟩

theorem expect {expected : Ty}
    (h : Passes (Check.change (·.expect expected value span)) before after) :
    (infer before.scope value).problems = [] ∧ (infer before.scope value).type = expected ∧
      after.scope = before.scope := by
  obtain ⟨rfl, hnil⟩ := h.change
  obtain ⟨hclean, htype⟩ := Typed.expecting_eq_nil.mp (recorded_record before hnil).2
  exact ⟨hclean, htype, rfl⟩

theorem ret (h : Passes (Check.change (·.ret value span)) before after) :
    (infer before.scope value).problems = [] ∧
      before.scope.context = some (infer before.scope value).type ∧
      after.scope = before.scope := by
  obtain ⟨rfl, hnil⟩ := h.change
  obtain ⟨hclean, hcomplaint⟩ := List.append_eq_nil_iff.mp (recorded_record before hnil).2
  refine ⟨hclean, ?_, rfl⟩
  cases hcontext : before.scope.context with
  -- Outside of all functions a return is a problem of its own.
  | none =>
      rw [hcontext] at hcomplaint
      exact absurd hcomplaint (List.cons_ne_nil _ _)
  | some expected =>
      rw [hcontext] at hcomplaint
      rw [typeMismatch_eq_nil.mp hcomplaint]

/-- A name that is bound without a complaint was not bound in the frame before. -/
theorem complainIfBound {checker : Checker} {problem : Problem}
    (h : (checker.complainIfBound name problem span).recorded = []) :
    checker.scope.getLocal? name = none ∧ checker.complainIfBound name problem span = checker := by
  unfold Checker.complainIfBound at h ⊢
  cases hbound : checker.scope.getLocal? name with
  | none => exact ⟨rfl, rfl⟩
  | some type =>
      rw [hbound] at h
      exact absurd (recorded_record checker h).2 (List.cons_ne_nil _ _)

/-- A function at the top that is declared without a complaint is bound. -/
theorem declare {checker : Checker} {decl : FnDecl Stmt}
    (h : (checker.declare decl).recorded = []) :
    checker.declare decl = checker.insert decl.name decl.signature := by
  unfold Checker.declare at h ⊢
  cases hbound : checker.scope.getLocal? decl.name with
  | none => rfl
  | some type =>
      rw [hbound] at h
      exact absurd (recorded_record checker h).2 (List.cons_ne_nil _ _)

theorem bindName (h : Passes (Check.change (·.bind name value span)) before after) :
    before.scope.getLocal? name = none ∧ (infer before.scope value).problems = [] ∧
      after.scope = before.scope.insert name (infer before.scope value).type := by
  obtain ⟨rfl, hnil⟩ := h.change
  -- The value is judged after the complaint, but a complaint that is not made changes nothing.
  have hparts := recorded_record (before.complainIfBound name (.alreadyInScope name) span) hnil
  obtain ⟨hfresh, hsame⟩ := complainIfBound hparts.1
  have hclean := hparts.2
  unfold Checker.bind
  rw [hsame] at hclean ⊢
  exact ⟨hfresh, hclean, rfl⟩

theorem record {problems : List Diagnostic}
    (h : Passes (Check.change (·.record problems)) before after) :
    problems = [] ∧ after.scope = before.scope := by
  obtain ⟨rfl, hnil⟩ := h.change
  exact ⟨(recorded_record before hnil).2, rfl⟩

theorem rangeHead (h : Passes (Check.change (·.rangeHead counter lower upper)) before after) :
    ((infer before.scope lower).problems = [] ∧ (infer before.scope lower).type = .int) ∧
      ((infer before.scope upper).problems = [] ∧ (infer before.scope upper).type = .int) ∧
      after.scope = before.scope.insert counter .int := by
  obtain ⟨rfl, hnil⟩ := h.change
  have hupper := recorded_record (before.expect .int lower lower.span) hnil
  have hlower := recorded_record before hupper.1
  exact ⟨Typed.expecting_eq_nil.mp hlower.2, Typed.expecting_eq_nil.mp hupper.2, rfl⟩

end Single

end Passes

end Check

theorem passes_of_checkStatements {statements : List Stmt} {recorded : List Diagnostic}
    (hfault : (checkStatements statements recorded).fault = none)
    (hdiagnostics : (checkStatements statements recorded).diagnostics = []) :
    (checkStatements statements recorded).statements = statements ∧
      ∃ after, Check.Passes (Check.program statements) Checker.start after := by
  unfold checkStatements at hfault hdiagnostics ⊢
  cases hrun : Check.program statements { Checker.start with recorded := recorded } with
  | error fault checker =>
      rw [hrun] at hfault
      cases hfault
  | ok value checker =>
      rw [hrun] at hdiagnostics
      -- The problems of lexing and parsing were recorded before, and there are none of them either.
      have hpasses : Check.Passes (Check.program statements)
          { Checker.start with recorded := recorded } checker := ⟨hrun, hdiagnostics⟩
      obtain rfl : recorded = [] := hpasses.recorded_before (Check.tidy_program statements)
      exact ⟨rfl, checker, hpasses⟩

/-- Sources that compile were checked without problems. -/
theorem passes_of_compile {sources : List Source} {statements : List Stmt}
    (h : compile sources = .ok statements) :
    ∃ after, Check.Passes (Check.program statements) Checker.start after := by
  unfold compile at h
  cases hfault : (analyze sources).fault with
  | some fault =>
      simp only [hfault] at h
      cases h
  | none =>
      simp only [hfault, Report.of?] at h
      by_cases hempty : (analyze sources).diagnostics = []
      · simp only [hempty, List.isEmpty_nil, if_true] at h
        obtain ⟨heq, hpasses⟩ := passes_of_checkStatements hfault hempty
        have hstatements : (analyze sources).statements = statements := Except.ok.inj h
        rw [← hstatements]
        exact heq ▸ hpasses
      · have hnonempty : (analyze sources).diagnostics.isEmpty = false := by simpa using hempty
        simp only [hnonempty, Bool.false_eq_true, if_false] at h
        cases h

end Quill
