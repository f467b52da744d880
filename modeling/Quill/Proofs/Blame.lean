import Quill.Proofs.Checking
import Quill.Proofs.Spans.Trees

/-!
# What the checker blames

Every problem that the checker finds blames a span of the tree that it goes through, and if it is
about one type in the place of another, these two types differ.  So whatever is demanded of problems
is met by those found in a program, if it can be told from these two facts.

There is one walk through the checker for all demands.  What it says of a step is that it adds to
the problems recorded before, and that what it adds meets the demand.
-/

namespace Quill

/-- A complaint about a type is about two different types. -/
def Problem.TypesDiffer : Problem → Prop
  | incorrectType expected received => expected ≠ received
  | _ => True

/-- Something that is demanded of problems.  It is met by every problem that blames a span of a
certain kind, unless that problem tells of two types that are the same. -/
structure Demand where
  /-- The spans that may be blamed. -/
  blamed : Span → Prop
  /-- The problems that meet the demand. -/
  met : Diagnostic → Prop
  meets : ∀ {problem span}, problem.TypesDiffer → blamed span → met (.of problem span)

namespace Demand

/-- Problems blame spans of a certain kind. -/
def spans (Blamed : Span → Prop) : Demand where
  blamed := Blamed
  met diagnostic := Blamed diagnostic.span
  meets _ hspan := hspan

/-- Problems with types are about types that differ; any span may be blamed. -/
def types : Demand where
  blamed _ := True
  met diagnostic := diagnostic.problem.TypesDiffer
  meets hdiffer _ := hdiffer

/-- All problems meet the demand. -/
def MetBy (demand : Demand) (problems : List Diagnostic) : Prop :=
  ∀ problem ∈ problems, demand.met problem

namespace MetBy

variable {demand : Demand} {problems others : List Diagnostic}

theorem nil : demand.MetBy [] :=
  List.forall_mem_nil _

theorem one {problem : Problem} {span : Span} (hdiffer : problem.TypesDiffer)
    (hspan : demand.blamed span) : demand.MetBy [.of problem span] :=
  List.forall_mem_singleton.2 (demand.meets hdiffer hspan)

theorem append (h : demand.MetBy problems) (hothers : demand.MetBy others) :
    demand.MetBy (problems ++ others) :=
  List.forall_mem_append.2 ⟨h, hothers⟩

theorem flatMap {α : Type} {items : List α} {f : α → List Diagnostic}
    (h : ∀ item ∈ items, demand.MetBy (f item)) : demand.MetBy (items.flatMap f) := by
  intro problem hproblem
  obtain ⟨item, hitem, hmem⟩ := List.mem_flatMap.1 hproblem
  exact h item hitem problem hmem

/-- Where types are compared, a complaint is made only if they differ. -/
theorem typeMismatch {expected received : Ty} {span : Span} (hspan : demand.blamed span) :
    demand.MetBy (typeMismatch expected received span) := by
  rw [Quill.typeMismatch]
  split
  · exact nil
  · next hother => exact one (Ne.symm hother) hspan

end MetBy

end Demand

variable {demand : Demand}

/-! ### Expressions -/

namespace Typed

/-- The span of the expression may be blamed, and its problems meet the demand. -/
structure Meets (demand : Demand) (typed : Typed) : Prop where
  span : demand.blamed typed.span
  problems : demand.MetBy typed.problems

variable {typed left right base index : Typed} {elements arguments : List Typed} {span : Span}

theorem Meets.expecting {expected : Ty} (h : typed.Meets demand) (hspan : demand.blamed span) :
    demand.MetBy (typed.expecting expected span) :=
  h.problems.append (.typeMismatch hspan)

theorem meets_array (helements : ∀ element ∈ elements, element.Meets demand)
    (hspan : demand.blamed span) : (array elements span).Meets demand := by
  cases elements with
  | nil => exact ⟨hspan, .nil⟩
  | cons first others =>
      refine ⟨hspan, .append (helements first List.mem_cons_self).problems (.flatMap ?_)⟩
      intro other hother
      have hmeets := helements other (List.mem_cons_of_mem _ hother)
      exact hmeets.expecting hmeets.span

theorem meets_name {found : Option Ty} {ident : String} (hspan : demand.blamed span) :
    (name found ident span).Meets demand := by
  cases found with
  | none => exact ⟨hspan, .one trivial hspan⟩
  | some type => exact ⟨hspan, .nil⟩

theorem metBy_argumentProblems {parameters : List Ty}
    (harguments : ∀ argument ∈ arguments, argument.Meets demand) (hspan : demand.blamed span) :
    demand.MetBy (argumentProblems parameters arguments span) := by
  rw [argumentProblems]
  split
  · exact .one trivial hspan
  · apply Demand.MetBy.flatMap
    intro pair hpair
    exact .typeMismatch (harguments pair.2 (List.of_mem_zip hpair).2).span

theorem meets_call {found : Option Ty} {callee : String} {calleeSpan : Span}
    (harguments : ∀ argument ∈ arguments, argument.Meets demand)
    (hcallee : demand.blamed calleeSpan) (hspan : demand.blamed span) :
    (call found callee calleeSpan arguments span).Meets demand := by
  have hinner : demand.MetBy (arguments.flatMap (·.problems)) :=
    .flatMap fun argument hargument => (harguments argument hargument).problems
  rw [call.eq_def]
  split
  · exact ⟨hspan, hinner.append (metBy_argumentProblems harguments hspan)⟩
  · exact ⟨hspan, hinner⟩
  · exact ⟨hspan, hinner.append (.one trivial hcallee)⟩
  · exact ⟨hspan, hinner.append (.one trivial hcallee)⟩

theorem meets_subscript (hbase : base.Meets demand) (hindex : index.Meets demand)
    (hspan : demand.blamed span) : (subscript base index span).Meets demand := by
  have hexpecting : demand.MetBy (index.expecting .int index.span) :=
    hindex.expecting hindex.span
  have hinner := hbase.problems.append hexpecting
  rw [subscript]
  split
  · exact ⟨hspan, hinner⟩
  · exact ⟨hspan, hinner⟩
  · exact ⟨hspan, hinner.append (.one trivial hspan)⟩

theorem Meets.numberProblems (h : typed.Meets demand) : demand.MetBy typed.numberProblems := by
  rw [Typed.numberProblems]
  split
  · exact .nil
  · exact .one trivial h.span

theorem meets_binary {operator : Operator} (hleft : left.Meets demand)
    (hright : right.Meets demand) (hspan : demand.blamed span) :
    (binary operator left right span).Meets demand := by
  have hinner := hleft.problems.append hright.problems
  have hnumbers := (hinner.append hleft.numberProblems).append hright.numberProblems
  rw [binary]
  split
  · exact ⟨hspan, hinner⟩
  · split
    · split
      · exact ⟨hspan, hinner⟩
      · split
        · exact ⟨hspan, hinner⟩
        · exact ⟨hspan, hinner.append (.one trivial hspan)⟩
    · simp only
      split
      · exact ⟨hspan, hnumbers⟩
      · split
        · exact ⟨hspan, hnumbers⟩
        · exact ⟨hspan, hnumbers⟩

end Typed

/-- All spans in the expression are of a certain kind. -/
abbrev Expr.AllSpans (Blamed : Span → Prop) (expr : Expr) : Prop :=
  ∀ span ∈ expr.spans, Blamed span

/-- The spans in an expression with two children. -/
theorem Expr.forall_spans_pair {Blamed : Span → Prop} {expr left right : Expr}
    (hown : expr.ownSpans = [expr.span]) (hchildren : expr.children = [left, right])
    (h : expr.AllSpans Blamed) :
    Blamed expr.span ∧ left.AllSpans Blamed ∧ right.AllSpans Blamed := by
  rw [AllSpans, spans_eq, hown, hchildren] at h
  simp only [List.flatMap_cons, List.flatMap_nil, List.append_nil] at h
  obtain ⟨hspan, hpair⟩ := List.forall_mem_append.1 h
  exact ⟨List.forall_mem_singleton.1 hspan, List.forall_mem_append.1 hpair⟩

mutual

/-- The problems in an expression meet the demand. -/
theorem meets_infer {scope : Scope Ty} : (expr : Expr) → expr.AllSpans demand.blamed →
    (infer scope expr).Meets demand
  | .int _ _, h | .float _ _, h | .string _ _, h | .bool _ _, h =>
    ⟨h _ List.mem_cons_self, .nil⟩
  | .name ident span, h => Typed.meets_name (h _ List.mem_cons_self)
  | .array elements span, h => by
      rw [Expr.AllSpans, Expr.spans_eq] at h
      obtain ⟨hown, hchildren⟩ := List.forall_mem_append.1 h
      exact Typed.meets_array (meets_inferAll elements hchildren) (hown _ List.mem_cons_self)
  | .call callee calleeSpan arguments span, h => by
      rw [Expr.AllSpans, Expr.spans_eq] at h
      obtain ⟨hown, hchildren⟩ := List.forall_mem_append.1 h
      exact Typed.meets_call (meets_inferAll arguments hchildren)
        (hown calleeSpan (by simp [Expr.ownSpans])) (hown span (by simp [Expr.ownSpans]))
  | .subscript base index span, h => by
      obtain ⟨hown, hbase, hindex⟩ := Expr.forall_spans_pair rfl rfl h
      exact Typed.meets_subscript (meets_infer base hbase) (meets_infer index hindex) hown
  | .binary operator left right span, h => by
      obtain ⟨hown, hleft, hright⟩ := Expr.forall_spans_pair rfl rfl h
      exact Typed.meets_binary (meets_infer left hleft) (meets_infer right hright) hown
  | .assign target value span, h => by
      obtain ⟨hown, htarget, hvalue⟩ := Expr.forall_spans_pair rfl rfl h
      have htargeted : (infer scope target).Meets demand := meets_infer target htarget
      have hvalued : (infer scope value).Meets demand := meets_infer value hvalue
      rw [infer]
      split
      · exact ⟨hown, (htargeted.problems.append hvalued.problems).append (.typeMismatch hown)⟩
      · have hcomplaint : demand.MetBy [.of .invalidAssignmentTarget target.span] :=
          .one trivial (htarget target.span target.span_mem_spans)
        exact ⟨hown, hcomplaint.append hvalued.problems⟩

theorem meets_inferAll {scope : Scope Ty} : (exprs : List Expr) →
    (∀ span ∈ exprs.flatMap Expr.spans, demand.blamed span) →
    ∀ typed ∈ inferAll scope exprs, typed.Meets demand
  | [], _ => List.forall_mem_nil _
  | expr :: exprs, h => by
      rw [List.flatMap_cons] at h
      obtain ⟨hfirst, hothers⟩ := List.forall_mem_append.1 h
      exact List.forall_mem_cons.2 ⟨meets_infer expr hfirst, meets_inferAll exprs hothers⟩

end

/-! ### The steps of the checker -/

namespace Checker

/-- Whatever was recorded before, the change only adds to it, and what it adds meets the demand. -/
def Adds (demand : Demand) (f : Checker → Checker) : Prop :=
  ∀ checker, ∃ problems,
    (f checker).recorded = checker.recorded ++ problems ∧ demand.MetBy problems

variable {span : Span}

theorem adds_id : Adds demand id :=
  fun _ => ⟨[], (List.append_nil _).symm, .nil⟩

theorem Adds.comp {f g : Checker → Checker} (hg : Adds demand g) (hf : Adds demand f) :
    Adds demand fun checker => g (f checker) := by
  intro checker
  obtain ⟨problems, hfirst, hproblems⟩ := hf checker
  obtain ⟨others, hsecond, hothers⟩ := hg (f checker)
  exact ⟨problems ++ others, by rw [hsecond, hfirst, List.append_assoc], hproblems.append hothers⟩

theorem adds_foldl {α : Type} {f : Checker → α → Checker} {items : List α}
    (h : ∀ item ∈ items, Adds demand (f · item)) : Adds demand (items.foldl f ·) := by
  induction items with
  | nil => exact adds_id
  | cons item items ih =>
      obtain ⟨hitem, hitems⟩ := List.forall_mem_cons.1 h
      exact (ih hitems).comp hitem

theorem adds_record {problems : List Diagnostic} (h : demand.MetBy problems) :
    Adds demand (·.record problems) :=
  fun _ => ⟨problems, rfl, h⟩

theorem adds_insert (name : String) (type : Ty) : Adds demand (·.insert name type) :=
  fun _ => ⟨[], (List.append_nil _).symm, .nil⟩

theorem adds_complainIfBound (name : String) (hspan : demand.blamed span) :
    Adds demand (·.complainIfBound name (.alreadyInScope name) span) := by
  intro checker
  show ∃ problems, (checker.complainIfBound name (.alreadyInScope name) span).recorded = _ ∧ _
  rw [complainIfBound]
  split
  · exact ⟨[_], rfl, .one trivial hspan⟩
  · exact adds_id checker

theorem adds_declare {decl : FnDecl Stmt} (hspan : demand.blamed decl.span) :
    Adds demand (·.declare decl) := by
  intro checker
  show ∃ problems, (checker.declare decl).recorded = _ ∧ _
  rw [declare]
  split
  · exact ⟨[_], rfl, .one trivial hspan⟩
  · exact adds_insert _ _ checker

theorem adds_declareLocal {decl : FnDecl Stmt} (hspan : demand.blamed decl.span) :
    Adds demand (·.declareLocal decl) :=
  (adds_insert _ _).comp (adds_complainIfBound _ hspan)

theorem adds_bindParameters {decl : FnDecl Stmt} (hspan : demand.blamed decl.span) :
    Adds demand (·.bindParameters decl) :=
  adds_foldl fun _ _ => (adds_insert _ _).comp (adds_complainIfBound _ hspan)

theorem adds_expr {value : Expr} (hvalue : value.AllSpans demand.blamed) :
    Adds demand (·.expr value) :=
  fun checker => adds_record (meets_infer value hvalue).problems checker

theorem adds_expect {value : Expr} (expected : Ty) (hvalue : value.AllSpans demand.blamed)
    (hspan : demand.blamed span) : Adds demand (·.expect expected value span) :=
  fun checker => adds_record ((meets_infer value hvalue).expecting hspan) checker

theorem adds_ret {value : Expr} (hvalue : value.AllSpans demand.blamed)
    (hspan : demand.blamed span) : Adds demand (·.ret value span) := by
  intro checker
  refine adds_record (.append (meets_infer value hvalue).problems ?_) checker
  split
  · exact .typeMismatch hspan
  · exact .one trivial hspan

theorem adds_bind {value : Expr} (name : String) (hvalue : value.AllSpans demand.blamed)
    (hspan : demand.blamed span) : Adds demand (·.bind name value span) := by
  intro checker
  have hrest : ∀ scope, Adds demand fun checked =>
      (checked.record (infer scope value).problems).insert name (infer scope value).type :=
    fun scope => (adds_insert _ _).comp (adds_record (meets_infer value hvalue).problems)
  exact ((hrest (checker.complainIfBound name (.alreadyInScope name) span).scope).comp
    (adds_complainIfBound _ hspan)) checker

theorem adds_rangeHead {lower upper : Expr} (counter : String)
    (hlower : lower.AllSpans demand.blamed) (hupper : upper.AllSpans demand.blamed) :
    Adds demand (·.rangeHead counter lower upper) :=
  (adds_insert _ _).comp ((adds_expect _ hupper (hupper _ upper.span_mem_spans)).comp
    (adds_expect _ hlower (hlower _ lower.span_mem_spans)))

theorem adds_pathProblems {decl : FnDecl Stmt} (hspan : demand.blamed decl.span) :
    Adds demand (·.record decl.pathProblems) := by
  apply adds_record
  rw [FnDecl.pathProblems]
  split
  · exact .one trivial hspan
  · exact .nil

end Checker

/-! ### Statements -/

namespace Check

/-- Whatever was recorded before, the action ends and only adds to it, and what it adds meets the
demand. -/
def Adds (demand : Demand) (action : Check Unit) : Prop :=
  ∀ checker, ∃ after problems, action checker = .ok () after ∧
    after.recorded = checker.recorded ++ problems ∧ demand.MetBy problems

namespace Adds

theorem change {f : Checker → Checker} (h : Checker.Adds demand f) :
    Adds demand (Check.change f) := by
  intro checker
  obtain ⟨problems, hadded, hproblems⟩ := h checker
  exact ⟨f checker, problems, rfl, hadded, hproblems⟩

theorem pure : Adds demand (Pure.pure ()) :=
  change Checker.adds_id

theorem bind {first next : Check Unit} (hfirst : Adds demand first) (hnext : Adds demand next) :
    Adds demand (first >>= fun _ => next) := by
  intro checker
  obtain ⟨middle, problems, hrun, hadded, hproblems⟩ := hfirst checker
  obtain ⟨after, others, hrun', hadded', hothers⟩ := hnext middle
  refine ⟨after, problems ++ others, ?_, ?_, hproblems.append hothers⟩
  · rw [run_bind hrun, hrun']
  · rw [hadded', hadded, List.append_assoc]

/-- What is found in a frame stays when the frame is popped. -/
theorem inFrame {action : Check Unit} {returnType : Ty} (h : Adds demand action)
    (htidy : Tidy action) : Adds demand (Check.inFrame returnType action) := by
  intro checker
  obtain ⟨inner, pushed, hinner, -, hframe⟩ := htidy.inFrame_eq returnType checker
  obtain ⟨after, problems, hrun, hadded, hproblems⟩ :=
    h { checker with scope := checker.scope.push checker.scope.current (some returnType) }
  obtain rfl : after = inner := (EStateM.Result.ok.inj (hrun.symm.trans hinner)).2
  exact ⟨_, problems, hframe, hadded, hproblems⟩

end Adds

mutual

/-- The problems in a statement meet the demand. -/
theorem adds_stmt : (stmt : Stmt) → stmt.Everywhere (Expr.AllSpans demand.blamed) demand.blamed →
    Adds demand (Check.stmt stmt)
  | .function decl, h => by
      obtain ⟨-, hspans, hblocks, hinner⟩ := h
      have hspan : demand.blamed decl.span := hspans _ List.mem_cons_self
      refine .bind (.change fun checker => ?_)
        (adds_function decl hspan ⟨hblocks _ List.mem_cons_self, hinner _ List.mem_cons_self⟩)
      split
      · exact Checker.adds_id checker
      · exact Checker.adds_declareLocal hspan checker
  | .ret value span, ⟨hexprs, hspans, _, _⟩ =>
    .change (Checker.adds_ret (hexprs _ List.mem_cons_self) (hspans _ List.mem_cons_self))
  | .bind name value span, ⟨hexprs, hspans, _, _⟩ =>
    .change (Checker.adds_bind name (hexprs _ List.mem_cons_self) (hspans _ List.mem_cons_self))
  | .expr value, ⟨hexprs, _, _, _⟩ => .change (Checker.adds_expr (hexprs _ List.mem_cons_self))
  | .branch first others otherwise, h => by
      obtain ⟨harms, hlast⟩ := Stmt.everywhere_branch.1 h
      obtain ⟨hfirst, hothers⟩ := List.forall_mem_cons.1 harms
      exact (adds_arm first hfirst).bind
        ((adds_arms others hothers).bind (adds_lastBlock otherwise hlast))
  | .loop condition body span, ⟨hexprs, hspans, hblocks, hinner⟩ =>
    .bind
      (.change (Checker.adds_expect .bool (hexprs _ List.mem_cons_self)
        (hspans _ List.mem_cons_self)))
      (adds_block body ⟨hblocks _ List.mem_cons_self, hinner _ List.mem_cons_self⟩)
  | .range counter lower upper body span, ⟨hexprs, _, hblocks, hinner⟩ => by
      obtain ⟨hlower, hupper⟩ := List.forall_mem_cons.1 hexprs
      exact .bind
        (.change (Checker.adds_rangeHead counter hlower (List.forall_mem_singleton.1 hupper)))
        (adds_block body ⟨hblocks _ List.mem_cons_self, hinner _ List.mem_cons_self⟩)
  | .block inner, ⟨_, _, hblocks, hinner⟩ =>
    adds_block inner ⟨hblocks _ List.mem_cons_self, hinner _ List.mem_cons_self⟩

theorem adds_function : (decl : FnDecl Stmt) → demand.blamed decl.span →
    decl.body.Everywhere (Expr.AllSpans demand.blamed) demand.blamed →
    Adds demand (Check.function decl)
  | ⟨_, _, _, _, body, _⟩, hspan, hbody =>
    .bind
      (.inFrame (.bind (.change (Checker.adds_bindParameters hspan)) (adds_block body hbody))
        ((Tidy.change (Checker.moves_bindParameters _)).bind (tidy_block body)))
      (.change (Checker.adds_pathProblems hspan))

theorem adds_arm : (arm : Arm Stmt) →
    arm.Everywhere (Expr.AllSpans demand.blamed) demand.blamed → Adds demand (Check.arm arm)
  | ⟨_, body, _⟩, ⟨hcondition, hspan, hbody⟩ =>
    .bind (.change (Checker.adds_expect .bool hcondition hspan)) (adds_block body hbody)

theorem adds_arms : (arms : List (Arm Stmt)) →
    (∀ arm ∈ arms, arm.Everywhere (Expr.AllSpans demand.blamed) demand.blamed) →
    Adds demand (Check.arms arms)
  | [], _ => .pure
  | first :: others, h =>
    .bind (adds_arm first (h first List.mem_cons_self))
      (adds_arms others fun arm harm => h arm (List.mem_cons_of_mem _ harm))

theorem adds_lastBlock : (last : Option (Block Stmt)) →
    (∀ block ∈ last, block.Everywhere (Expr.AllSpans demand.blamed) demand.blamed) →
    Adds demand (Check.lastBlock last)
  | some inner, h => adds_block inner (h inner rfl)
  | none, _ => .pure

theorem adds_block : (block : Block Stmt) →
    block.Everywhere (Expr.AllSpans demand.blamed) demand.blamed → Adds demand (Check.block block)
  | ⟨body, _⟩, h => adds_stmts body h.body

theorem adds_stmts : (stmts : List Stmt) →
    (∀ stmt ∈ stmts, stmt.Everywhere (Expr.AllSpans demand.blamed) demand.blamed) →
    Adds demand (Check.stmts stmts)
  | [], _ => .pure
  | first :: others, h =>
    .bind (adds_stmt first (h first List.mem_cons_self))
      (adds_stmts others fun stmt hstmt => h stmt (List.mem_cons_of_mem _ hstmt))

end

/-- The problems in a program meet the demand. -/
theorem adds_program {program : List Stmt}
    (h : ∀ stmt ∈ program, stmt.Everywhere (Expr.AllSpans demand.blamed) demand.blamed) :
    Adds demand (Check.program program) := by
  refine .bind (.change (Checker.adds_foldl fun decl hdecl => ?_)) (adds_stmts program h)
  obtain ⟨stmt, hstmt, hsome⟩ := List.mem_filterMap.1 hdecl
  obtain rfl := Stmt.eq_function_of_decl? hsome
  obtain ⟨-, hspans, -, -⟩ := h _ hstmt
  exact Checker.adds_declare (hspans _ List.mem_cons_self)

end Check

end Quill
