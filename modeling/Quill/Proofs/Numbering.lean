import Quill.Proofs.Typing.Checked

/-!
# The checker does not see the numbers of pushes

Every frame carries the number of the push that made it, and only handles make use of it.  The
checker has no handles: its lookups depend on the scope without these numbers.  Two checkers whose
scopes are the same up to them go abreast through every statement, and find the same problems.

The relation `Checker.Abreast` is kept by every change that the checker makes, so the walk over the
statements is made once, in `Check.even_stmt` and its siblings.
-/

namespace Quill

namespace Scope

variable {V : Type}

/-- The scope without the numbers of its pushes. -/
def unnumbered (scope : Scope V) : Scope V where
  globals := scope.globals
  frames := scope.frames.map fun frame => { frame with serial := 0 }
  pushed := 0

section Unnumbered

variable (scope : Scope V)

@[simp] theorem current_unnumbered : scope.unnumbered.current = scope.current := by
  simp [unnumbered, current]

@[simp] theorem bindingsOf_unnumbered (id : FrameId) :
    scope.unnumbered.bindingsOf id = scope.bindingsOf id := by
  cases id with
  | zero => rfl
  | succ index => cases hframe : scope.frames[index]? <;> simp [bindingsOf, unnumbered, hframe]

theorem frame?_unnumbered (id : FrameId) :
    scope.unnumbered.frame? id =
      (scope.frame? id).map fun frame => { frame with serial := 0 } := by
  cases id with
  | zero => rfl
  | succ index => simp [frame?, unnumbered]

@[simp] theorem chainFrom_unnumbered (bound : Nat) (id : FrameId) :
    scope.unnumbered.chainFrom bound id = scope.chainFrom bound id := by
  induction bound generalizing id with
  | zero => rfl
  | succ bound ih =>
      rw [chainFrom, chainFrom, frame?_unnumbered]
      cases scope.frame? id with
      | none => rfl
      | some frame => simp [ih]

@[simp] theorem chain_unnumbered : scope.unnumbered.chain = scope.chain := by
  have hdepth : scope.unnumbered.depth = scope.depth := by simp [depth, unnumbered]
  rw [chain, chain, hdepth, current_unnumbered, chainFrom_unnumbered]

@[simp] theorem get?_unnumbered (name : String) :
    scope.unnumbered.get? name = scope.get? name := by
  simp [get?, find?, getIn?]

@[simp] theorem getLocal?_unnumbered (name : String) :
    scope.unnumbered.getLocal? name = scope.getLocal? name := by
  simp [getLocal?, getIn?]

@[simp] theorem context_unnumbered : scope.unnumbered.context = scope.context := by
  have hframe : ∀ id, (scope.unnumbered.frame? id).bind (·.context) =
      (scope.frame? id).bind (·.context) := by
    intro id
    rw [frame?_unnumbered]
    cases scope.frame? id <;> rfl
  simp only [context, chain_unnumbered, hframe]

@[simp] theorem locals_unnumbered : scope.unnumbered.locals = scope.locals := by
  simp [locals]

theorem unnumbered_withLocals (bindings : Bindings V) (count : Nat) :
    (scope.withLocals bindings count).unnumbered = scope.unnumbered.withLocals bindings 0 := by
  induction scope using shapes with
  | global globals pushed => simp [unnumbered]
  | inner globals below frame pushed => simp [unnumbered]

/-- Work in frames that were popped again leaves no trace but in the number of pushes. -/
theorem unnumbered_withLocals_self (count : Nat) :
    (scope.withLocals scope.locals count).unnumbered = scope.unnumbered := by
  have hself := scope.unnumbered.withLocals_self
  rwa [unnumbered_withLocals, ← locals_unnumbered]

end Unnumbered

variable {first second : Scope V} (h : first.unnumbered = second.unnumbered)

include h

theorem unnumbered_insert_congr (name : String) (value : V) :
    (first.insert name value).unnumbered = (second.insert name value).unnumbered := by
  have hlocals : first.locals = second.locals := by
    rw [← locals_unnumbered, h, locals_unnumbered]
  rw [insert_eq_withLocals, insert_eq_withLocals, unnumbered_withLocals, unnumbered_withLocals, h,
    hlocals]

theorem unnumbered_push_congr (parent : FrameId) (context : Option Ty) :
    (first.push parent context).unnumbered = (second.push parent context).unnumbered := by
  simp only [unnumbered, mk.injEq, and_true] at h
  simp [unnumbered, push, h]

end Scope

namespace Checker

/-- The checkers have the same names in scope, and have found the same since they had recorded
`earlier` and `earlier'`. -/
structure Abreast (earlier earlier' : List Diagnostic) (first second : Checker) : Prop where
  scope : first.scope.unnumbered = second.scope.unnumbered
  found : ∃ found, first.recorded = earlier ++ found ∧ second.recorded = earlier' ++ found

namespace Abreast

variable {earlier earlier' : List Diagnostic} {first second : Checker}

section Sees

variable (h : Abreast earlier earlier' first second)

include h

theorem get? (name : String) : first.scope.get? name = second.scope.get? name := by
  rw [← Scope.get?_unnumbered, h.scope, Scope.get?_unnumbered]

theorem getLocal? (name : String) : first.scope.getLocal? name = second.scope.getLocal? name := by
  rw [← Scope.getLocal?_unnumbered, h.scope, Scope.getLocal?_unnumbered]

theorem context : first.scope.context = second.scope.context := by
  rw [← Scope.context_unnumbered, h.scope, Scope.context_unnumbered]

theorem current : first.scope.current = second.scope.current := by
  rw [← Scope.current_unnumbered, h.scope, Scope.current_unnumbered]

theorem infer (expr : Expr) : Quill.infer first.scope expr = Quill.infer second.scope expr :=
  infer_congr expr fun name _ => h.get? name

end Sees

/-! ### Changes that keep two checkers abreast -/

theorem record (h : Abreast earlier earlier' first second) (problems : List Diagnostic) :
    Abreast earlier earlier' (first.record problems) (second.record problems) where
  scope := h.scope
  found := by
    obtain ⟨found, hfirst, hsecond⟩ := h.found
    exact ⟨found ++ problems, by simp [Checker.record, hfirst], by simp [Checker.record, hsecond]⟩

theorem insert (h : Abreast earlier earlier' first second) (name : String) (type : Ty) :
    Abreast earlier earlier' (first.insert name type) (second.insert name type) where
  scope := Scope.unnumbered_insert_congr h.scope name type
  found := h.found

theorem complainIfBound (h : Abreast earlier earlier' first second) (name : String)
    (problem : Problem) (span : Span) :
    Abreast earlier earlier' (first.complainIfBound name problem span)
      (second.complainIfBound name problem span) := by
  unfold Checker.complainIfBound
  rw [h.getLocal? name]
  cases second.scope.getLocal? name with
  | none => exact h
  | some _ => exact h.record _

theorem declareLocal (h : Abreast earlier earlier' first second) (decl : FnDecl Stmt) :
    Abreast earlier earlier' (first.declareLocal decl) (second.declareLocal decl) :=
  (h.complainIfBound _ _ _).insert _ _

theorem bindParameters (h : Abreast earlier earlier' first second) (decl : FnDecl Stmt) :
    Abreast earlier earlier' (first.bindParameters decl) (second.bindParameters decl) := by
  unfold Checker.bindParameters
  induction decl.parameters generalizing first second with
  | nil => exact h
  | cons parameter parameters ih => exact ih ((h.complainIfBound _ _ _).insert _ _)

theorem expr (h : Abreast earlier earlier' first second) (expr : Expr) :
    Abreast earlier earlier' (first.expr expr) (second.expr expr) := by
  rw [Checker.expr, Checker.expr, h.infer]
  exact h.record _

theorem expect (h : Abreast earlier earlier' first second) (expected : Ty) (expr : Expr)
    (span : Span) :
    Abreast earlier earlier' (first.expect expected expr span)
      (second.expect expected expr span) := by
  rw [Checker.expect, Checker.expect, h.infer]
  exact h.record _

theorem ret (h : Abreast earlier earlier' first second) (value : Expr) (span : Span) :
    Abreast earlier earlier' (first.ret value span) (second.ret value span) := by
  rw [Checker.ret, Checker.ret, h.infer, h.context]
  exact h.record _

theorem bind (h : Abreast earlier earlier' first second) (name : String) (value : Expr)
    (span : Span) :
    Abreast earlier earlier' (first.bind name value span) (second.bind name value span) := by
  have hchecked := h.complainIfBound name (.alreadyInScope name) span
  rw [Checker.bind, Checker.bind, hchecked.infer]
  exact (hchecked.record _).insert _ _

theorem rangeHead (h : Abreast earlier earlier' first second) (counter : String)
    (lower upper : Expr) :
    Abreast earlier earlier' (first.rangeHead counter lower upper)
      (second.rangeHead counter lower upper) :=
  ((h.expect _ _ _).expect _ _ _).insert _ _

end Abreast

end Checker

namespace Check

variable {earlier earlier' : List Diagnostic}

/-- The action ends for two checkers that are abreast, and leaves them abreast. -/
def Even (earlier earlier' : List Diagnostic) (action : Check Unit) : Prop :=
  ∀ first second, Checker.Abreast earlier earlier' first second →
    ∃ after after', action first = .ok () after ∧ action second = .ok () after' ∧
      Checker.Abreast earlier earlier' after after'

namespace Even

theorem change {f : Checker → Checker}
    (h : ∀ first second, Checker.Abreast earlier earlier' first second →
      Checker.Abreast earlier earlier' (f first) (f second)) :
    Even earlier earlier' (Check.change f) :=
  fun first second habreast => ⟨f first, f second, rfl, rfl, h first second habreast⟩

theorem pure : Even earlier earlier' (Pure.pure ()) :=
  change fun _ _ habreast => habreast

theorem bind {action next : Check Unit} (haction : Even earlier earlier' action)
    (hnext : Even earlier earlier' next) :
    Even earlier earlier' (action >>= fun _ => next) := by
  intro first second habreast
  obtain ⟨middle, middle', hfirst, hsecond, hmiddle⟩ := haction first second habreast
  obtain ⟨after, after', hlast, hlast', hafter⟩ := hnext middle middle' hmiddle
  exact ⟨after, after', (run_bind hfirst).trans hlast, (run_bind hsecond).trans hlast', hafter⟩

/-- In frames of their own two checkers stay abreast: the frames differ in their numbers, and are
popped again. -/
theorem inFrame {returnType : Ty} {action : Check Unit} (h : Even earlier earlier' action)
    (htidy : Tidy action) : Even earlier earlier' (Check.inFrame returnType action) := by
  intro first second habreast
  obtain ⟨inner, pushed, hinner, -, hrun⟩ := htidy.inFrame_eq returnType first
  obtain ⟨inner', pushed', hinner', -, hrun'⟩ := htidy.inFrame_eq returnType second
  refine ⟨_, _, hrun, hrun', ?_, ?_⟩
  · rw [Scope.unnumbered_withLocals_self, Scope.unnumbered_withLocals_self, habreast.scope]
  · have hpushed : (first.scope.push first.scope.current (some returnType)).unnumbered =
        (second.scope.push second.scope.current (some returnType)).unnumbered := by
      rw [habreast.current]
      exact Scope.unnumbered_push_congr habreast.scope _ _
    obtain ⟨after, after', hafter, hafter', hlater⟩ :=
      h { first with scope := first.scope.push first.scope.current (some returnType) }
        { second with scope := second.scope.push second.scope.current (some returnType) }
        ⟨hpushed, habreast.found⟩
    obtain rfl : inner = after := (EStateM.Result.ok.inj (hinner.symm.trans hafter)).2
    obtain rfl : inner' = after' := (EStateM.Result.ok.inj (hinner'.symm.trans hafter')).2
    exact hlater.found

end Even

mutual

/-- Two checkers go abreast through a statement. -/
theorem even_stmt : (stmt : Stmt) → Even earlier earlier' (Check.stmt stmt)
  | .function decl => by
      refine Even.bind (Even.change fun first second habreast => ?_) (even_function decl)
      simp only [habreast.current]
      split
      · exact habreast
      · exact habreast.declareLocal decl
  | .ret value span => Even.change fun _ _ habreast => habreast.ret value span
  | .bind name value span => Even.change fun _ _ habreast => habreast.bind name value span
  | .expr value => Even.change fun _ _ habreast => habreast.expr value
  | .branch first others otherwise =>
    (even_arm first).bind ((even_arms others).bind (even_lastBlock otherwise))
  | .loop condition body span =>
    (Even.change fun _ _ habreast => habreast.expect .bool condition span).bind (even_block body)
  | .range counter lower upper body _ =>
    (Even.change fun _ _ habreast => habreast.rangeHead counter lower upper).bind (even_block body)
  | .block inner => even_block inner

theorem even_function : (decl : FnDecl Stmt) → Even earlier earlier' (Check.function decl)
  | ⟨_, _, _, _, body, _⟩ =>
    (Even.inFrame
      ((Even.change fun _ _ habreast => habreast.bindParameters _).bind (even_block body))
      ((Tidy.change (Checker.moves_bindParameters _)).bind (tidy_block body))).bind
      (Even.change fun _ _ habreast => habreast.record _)

theorem even_arm : (arm : Arm Stmt) → Even earlier earlier' (Check.arm arm)
  | ⟨condition, body, span⟩ =>
    (Even.change fun _ _ habreast => habreast.expect .bool condition span).bind (even_block body)

theorem even_arms : (arms : List (Arm Stmt)) → Even earlier earlier' (Check.arms arms)
  | [] => Even.pure
  | first :: others => (even_arm first).bind (even_arms others)

theorem even_lastBlock :
    (last : Option (Block Stmt)) → Even earlier earlier' (Check.lastBlock last)
  | some inner => even_block inner
  | none => Even.pure

theorem even_block : (block : Block Stmt) → Even earlier earlier' (Check.block block)
  | ⟨body, _⟩ => even_stmts body

theorem even_stmts : (stmts : List Stmt) → Even earlier earlier' (Check.stmts stmts)
  | [] => Even.pure
  | first :: others => (even_stmt first).bind (even_stmts others)

end

end Check

end Quill
