import Quill.Proofs.Checking

/-!
# What compiling comes to

Checking ends for every program, also for one full of mistakes, and every statement leaves the stack
of frames as it found it: only names of the innermost frame can change.  So nothing can stop the
checker, and sources fail to compile for one reason only, which is that a problem was recorded.

The two facts about scopes are put together in `Scope.SameAround`; that a statement keeps it is read
off `Check.tidy_stmt`, which says how a statement moves the checker.
-/

namespace Quill

namespace Scope

variable {V : Type} {before after : Scope V}

/-- The frames of the stack without the names in them. -/
def skeleton (scope : Scope V) : Array (Frame V) :=
  scope.frames.map fun frame => { frame with bindings := ∅ }

/-- Both scopes have the same stack of frames, and the same names in all frames but the innermost
one. -/
structure SameAround (before after : Scope V) : Prop where
  skeleton : after.skeleton = before.skeleton
  outside : ∀ id, id ≠ before.current → after.bindingsOf id = before.bindingsOf id

theorem skeleton_withLocals (scope : Scope V) (bindings : Bindings V) (count : Nat) :
    (scope.withLocals bindings count).skeleton = scope.skeleton := by
  induction scope using shapes with
  | global globals pushed => rfl
  | inner globals below frame pushed => simp [skeleton]

theorem bindingsOf_withLocals (scope : Scope V) (bindings : Bindings V) (count : Nat)
    {id : FrameId} (hid : id ≠ scope.current) :
    (scope.withLocals bindings count).bindingsOf id = scope.bindingsOf id := by
  induction scope using shapes with
  | global globals pushed =>
      -- No frame but the global one is on the stack, so any other number is bound to nothing.
      cases id with
      | zero => exact absurd rfl hid
      | succ index => rfl
  | inner globals below frame pushed =>
      cases id with
      | zero => simp [bindingsOf]
      | succ index =>
          have hindex : index ≠ below.size := by
            intro heq
            exact hid (by simp [current, heq])
          simp [bindingsOf, Array.getElem?_push, hindex]

theorem sameAround_withLocals (scope : Scope V) (bindings : Bindings V) (count : Nat) :
    scope.SameAround (scope.withLocals bindings count) where
  skeleton := scope.skeleton_withLocals bindings count
  outside _ hid := scope.bindingsOf_withLocals bindings count hid

end Scope

namespace Check

/-- A tidy action ends in the stack of frames that it began in, and takes back no problem. -/
theorem Tidy.ends {action : Check Unit} (h : Tidy action) (checker : Checker) :
    ∃ after, action checker = .ok () after ∧ checker.scope.SameAround after.scope ∧
      checker.recorded <+: after.recorded := by
  obtain ⟨bindings, pushed, problems, hrun⟩ := h checker
  exact ⟨_, hrun, checker.scope.sameAround_withLocals bindings pushed, problems, rfl⟩

end Check

/-- What compiling gives for statements that were checked up to the end. -/
theorem compile_of_check {sources : List Source} {after : Checker}
    (hrun : Check.program ((parseFrom 0 sources).flatMap (·.statements))
      { Checker.start with recorded := (parseFrom 0 sources).flatMap (·.diagnostics) } =
        .ok () after) :
    compile sources =
      if after.recorded = [] then
        .ok ((parseFrom 0 sources).flatMap (·.statements))
      else
        .error (.report ⟨after.recorded.map (·.render sources)⟩) := by
  have hanalysis : analyze sources =
      ⟨(parseFrom 0 sources).flatMap (·.statements), after.recorded, none⟩ := by
    simp only [analyze, checkStatements, hrun]
  simp only [compile, hanalysis, Report.of?, List.isEmpty_iff]
  by_cases hnil : after.recorded = []
  · simp [hnil]
  · simp [hnil]

/-- Checking a program always ends.  Expressions leave the scope alone, and a statement changes
nothing but the names in its own frame.  Hence sources compile exactly if no problem was recorded
while they were read and checked, and otherwise all of them are reported, in order. -/
theorem checking_ends_and_compile_reports :
    (∀ (program : List Stmt) (checker : Checker),
      ∃ after, Check.program program checker = .ok () after) ∧
    (∀ (checker : Checker) (expr : Expr) (expected : Ty) (span : Span),
      (checker.expr expr).scope = checker.scope ∧
      (checker.expect expected expr span).scope = checker.scope ∧
      (checker.ret expr span).scope = checker.scope) ∧
    (∀ (stmt : Stmt) (checker : Checker), ∃ after,
      Check.stmt stmt checker = .ok () after ∧ checker.scope.SameAround after.scope ∧
        checker.recorded <+: after.recorded) ∧
    ∀ sources : List Source,
      let statements := (parseFrom 0 sources).flatMap (·.statements)
      let readingProblems := (parseFrom 0 sources).flatMap (·.diagnostics)
      ∃ after, Check.program statements { Checker.start with recorded := readingProblems } =
          .ok () after ∧
        readingProblems <+: after.recorded ∧
        compile sources =
          if after.recorded = [] then
            .ok statements
          else
            .error (.report ⟨after.recorded.map (·.render sources)⟩) := by
  refine ⟨fun program checker => ?_, fun checker expr expected span => ⟨rfl, rfl, rfl⟩,
    fun stmt checker => (Check.tidy_stmt stmt).ends checker, fun sources => ?_⟩
  · obtain ⟨after, hrun, -⟩ := (Check.tidy_program program).ends checker
    exact ⟨after, hrun⟩
  · obtain ⟨after, hrun, -, hgrows⟩ := (Check.tidy_program _).ends
      { Checker.start with recorded := (parseFrom 0 sources).flatMap (·.diagnostics) }
    exact ⟨after, hrun, hgrows, compile_of_check hrun⟩

end Quill
