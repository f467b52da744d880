import Quill.Proofs.Binding.Programs
import Quill.Proofs.Checking
import Quill.Proofs.Typing.Soundness

/-!
# Names in the innermost frame, checked and run

The checker and a run go over the same statements in frames of their own.  The checker comes by all
parts of the statements and binds the name of each declaration among them, except for functions if
its frame is the global one: it takes these to be declared already.  A run comes by some of the
parts, and binds the names of those declarations that it comes by.  So whatever a run has bound in
its innermost frame is bound in that of the checker too, apart from functions that are declared in
the global frame.

The types that the checker binds the names to are those of the values in the body of a function, as
long as names are mentioned where they are surely bound and counters are not bound to anything else.
-/

namespace Quill

/-! ### What the checker binds -/

/-- The name that the checker binds in the frame when it comes by the statement. -/
def Stmt.declaredIn? (frame : FrameId) : Stmt → Option String
  | function decl => if frame = Scope.global then none else some decl.name
  | stmt => stmt.declared?

/-- The checker passes over a declaration only if it is that of a function in the global frame. -/
theorem Stmt.declaredIn?_eq (frame : FrameId) (stmt : Stmt) :
    stmt.declaredIn? frame = stmt.declared? ∨
      frame = Scope.global ∧ ∃ decl, stmt = .function decl := by
  cases stmt with
  | function decl =>
      by_cases hglobal : frame = Scope.global
      · exact .inr ⟨hglobal, decl, rfl⟩
      · exact .inl (if_neg hglobal)
  | _ => exact .inl rfl

theorem Scope.locals_withLocals {V : Type} (scope : Scope V) (bindings : Bindings V) (count : Nat) :
    (scope.withLocals bindings count).locals = bindings := by
  induction scope using shapes with
  | global globals pushed => rfl
  | inner globals below frame pushed => simp

namespace Check

variable {frame : FrameId} {names others : List String} {first next action : Check Unit}

/-- From a checker in the frame the action ends in the same frame, and the names that it has bound
there are the given ones. -/
def Declares (frame : FrameId) (names : List String) (action : Check Unit) : Prop :=
  ∀ before : Checker, before.scope.current = frame → ∃ after, action before = .ok () after ∧
    after.scope.current = frame ∧
    ∀ name, name ∈ after.scope.locals ↔ name ∈ before.scope.locals ∨ name ∈ names

namespace Declares

/-- A change that leaves the scope as it is binds no names. -/
theorem still {f : Checker → Checker}
    (h : ∀ checker, checker.scope.current = frame → (f checker).scope = checker.scope) :
    Declares frame [] (change f) := by
  intro before hframe
  refine ⟨f before, rfl, ?_, fun name => ?_⟩
  · rw [h before hframe, hframe]
  · rw [h before hframe]
    simp

/-- A change that binds one name. -/
theorem insert {f : Checker → Checker} {declared : String}
    (h : ∀ checker, checker.scope.current = frame →
      ∃ type, (f checker).scope = checker.scope.insert declared type) :
    Declares frame [declared] (change f) := by
  intro before hframe
  obtain ⟨type, hscope⟩ := h before hframe
  refine ⟨f before, rfl, ?_, fun name => ?_⟩
  · rw [hscope, (Scope.kept_insert before.scope declared type).current_eq, hframe]
  · rw [hscope, Scope.locals_insert, Scope.mem_insert_iff, List.mem_singleton, or_comm,
      eq_comm (a := declared)]

theorem pure : Declares frame [] (Pure.pure ()) :=
  still (f := id) fun _ _ => rfl

theorem bind (hfirst : Declares frame names first) (hnext : Declares frame others next) :
    Declares frame (names ++ others) (first >>= fun _ => next) := by
  intro before hframe
  obtain ⟨middle, hrun, hmiddle, hnames⟩ := hfirst before hframe
  obtain ⟨after, hrest, hafter, hothers⟩ := hnext middle hmiddle
  refine ⟨after, ?_, hafter, fun name => ?_⟩
  · show EStateM.bind first (fun _ => next) before = _
    simp only [EStateM.bind, hrun]
    exact hrest
  · rw [hothers, hnames, List.mem_append, or_assoc]

/-- What is bound in the frame of a body is gone with that frame. -/
theorem inFrame {returnType : Ty} (h : Tidy action) :
    Declares frame [] (Check.inFrame returnType action) := by
  intro before hframe
  obtain ⟨bindings, pushed, problems, hrun⟩ :=
    h { before with scope := before.scope.push before.scope.current (some returnType) }
  refine ⟨⟨before.scope.withLocals before.scope.locals pushed, before.recorded ++ problems⟩,
    ?_, ?_, fun name => ?_⟩
  · simp only [Check.inFrame, hrun, Checker.moved, Scope.pop_withLocals_push]
  · rw [Scope.current_withLocals, hframe]
  · rw [Scope.locals_withLocals]
    simp

end Declares

theorem declares_function (decl : FnDecl Stmt) : Declares frame [] (Check.function decl) := by
  obtain ⟨id, name, parameters, returnType, body, span⟩ := decl
  exact (Declares.inFrame ((Tidy.change (Checker.moves_bindParameters _)).bind
    (tidy_block body))).bind (Declares.still fun _ _ => rfl)

mutual

/-- Checking a statement binds the names of all declarations among its parts. -/
theorem declares_stmt (frame : FrameId) : (stmt : Stmt) →
    Declares frame (stmt.parts.filterMap (Stmt.declaredIn? frame)) (Check.stmt stmt)
  | .function decl => by
      by_cases hglobal : frame = Scope.global
      · have hnames : (Stmt.function decl).parts.filterMap (Stmt.declaredIn? frame) = [] ++ [] := by
          simp [Stmt.parts, Stmt.declaredIn?, hglobal]
        rw [hnames]
        refine Declares.bind (Declares.still fun checker hframe => ?_) (declares_function decl)
        rw [if_pos (hframe.trans hglobal)]
      · have hnames : (Stmt.function decl).parts.filterMap (Stmt.declaredIn? frame) =
            [decl.name] ++ [] := by
          simp [Stmt.parts, Stmt.declaredIn?, hglobal]
        rw [hnames]
        refine Declares.bind (Declares.insert fun checker hframe => ⟨decl.signature, ?_⟩)
          (declares_function decl)
        rw [if_neg (hframe ▸ hglobal), Checker.declareLocal, Checker.insert,
          Checker.scope_complainIfBound]
  | .ret value span => Declares.still fun _ _ => rfl
  | .bind name value span => Declares.insert fun checker _ => by
      simp only [Checker.bind, Checker.insert, Checker.record, Checker.scope_complainIfBound]
      exact ⟨_, rfl⟩
  | .expr value => Declares.still fun _ _ => rfl
  | .branch ⟨condition, body, span⟩ others otherwise => by
      have hnames : (Stmt.branch ⟨condition, body, span⟩ others otherwise).parts.filterMap
          (Stmt.declaredIn? frame) =
          (Stmt.partsOfBlock body).filterMap (Stmt.declaredIn? frame) ++
            ((Stmt.partsOfArms others).filterMap (Stmt.declaredIn? frame) ++
              (Stmt.partsOfLast otherwise).filterMap (Stmt.declaredIn? frame)) := by
        rw [← List.filterMap_append, ← List.filterMap_append, ← List.append_assoc]
        rfl
      rw [hnames]
      exact (declares_arm frame ⟨condition, body, span⟩).bind
        ((declares_arms frame others).bind (declares_lastBlock frame otherwise))
  | .loop condition body span =>
    (Declares.still (f := (·.expect .bool condition span)) fun _ _ => rfl).bind
      (declares_block frame body)
  | .range counter lower upper body span =>
    (Declares.insert (f := (·.rangeHead counter lower upper)) fun _ _ => ⟨_, rfl⟩).bind
      (declares_block frame body)
  | .block inner => declares_block frame inner

theorem declares_arm (frame : FrameId) : (arm : Arm Stmt) →
    Declares frame ((Stmt.partsOfBlock arm.body).filterMap (Stmt.declaredIn? frame))
      (Check.arm arm)
  | ⟨condition, body, span⟩ =>
    (Declares.still (f := (·.expect .bool condition span)) fun _ _ => rfl).bind
      (declares_block frame body)

theorem declares_arms (frame : FrameId) : (arms : List (Arm Stmt)) →
    Declares frame ((Stmt.partsOfArms arms).filterMap (Stmt.declaredIn? frame)) (Check.arms arms)
  | [] => Declares.pure
  | ⟨condition, body, span⟩ :: others => by
      rw [Stmt.partsOfArms, List.filterMap_append]
      exact (declares_arm frame ⟨condition, body, span⟩).bind (declares_arms frame others)

theorem declares_lastBlock (frame : FrameId) : (last : Option (Block Stmt)) →
    Declares frame ((Stmt.partsOfLast last).filterMap (Stmt.declaredIn? frame))
      (Check.lastBlock last)
  | some inner => declares_block frame inner
  | none => Declares.pure

theorem declares_block (frame : FrameId) : (block : Block Stmt) →
    Declares frame ((Stmt.partsOfBlock block).filterMap (Stmt.declaredIn? frame))
      (Check.block block)
  | ⟨body, _⟩ => declares_stmts frame body

theorem declares_stmts (frame : FrameId) : (stmts : List Stmt) →
    Declares frame ((Stmt.partsOfAll stmts).filterMap (Stmt.declaredIn? frame)) (Check.stmts stmts)
  | [] => Declares.pure
  | stmt :: stmts => by
      rw [Stmt.partsOfAll, List.filterMap_append]
      exact (declares_stmt frame stmt).bind (declares_stmts frame stmts)

end

end Check

/-! ### What a run binds -/

/-- Whatever statements have bound in the innermost frame is declared by one of their parts. -/
theorem Eval.locals_of_stmts {host : Host} {depth fuel : Nat} {stmts : List Stmt}
    {machine final : Machine} {flow : Flow} {name : String}
    (h : Eval.stmts host (Eval.callWithin host depth) fuel stmts machine = .ok flow final)
    (hname : name ∈ final.scope.locals) :
    name ∈ machine.scope.locals ∨ name ∈ Stmt.declaredBy stmts := by
  have hkeeps : (Account.loose name).Keeps (name ∈ Stmt.declaredBy stmts) machine.scope
      (Eval.stmts host (Eval.callWithin host depth) fuel stmts) _ :=
    Account.keeps_stmts (Account.answers_callWithin host depth) fuel stmts false machine.scope
      False.elim Account.knows_false fun part hmem =>
        ⟨fun _ _ _ _ => trivial, fun _ _ => trivial,
          fun hdeclared => List.mem_filterMap.mpr ⟨part, hmem, hdeclared⟩⟩
  have hend := hkeeps machine ⟨rfl, trivial, fun _ _ found _ _ =>
    Value.functions_of_forall (fun _ _ => trivial) found⟩
  rw [h] at hend
  exact hend.1.here hname

/-! ### Both -/

section Both

variable {statements : List Stmt} {checker after : Checker} {machine final : Machine} {host : Host}
  {depth fuel : Nat} {flow : Flow}

/-- Whatever a run has bound in its innermost frame is bound in that of the checker, unless it is a
function that is declared in the global frame. -/
theorem mem_locals_of_run
    (hagree : ∀ name ∈ machine.scope.locals, name ∈ checker.scope.locals)
    (hcheck : Check.stmts statements checker = .ok () after)
    (hrun : Eval.stmts host (Eval.callWithin host depth) fuel statements machine =
      .ok flow final) :
    ∀ name ∈ final.scope.locals, name ∈ after.scope.locals ∨
      checker.scope.current = Scope.global ∧
        ∃ decl, .function decl ∈ Stmt.partsOfAll statements ∧ decl.name = name := by
  intro name hname
  obtain ⟨checked, hchecked, -, hnames⟩ :=
    Check.declares_stmts checker.scope.current statements checker rfl
  obtain rfl : checked = after := (EStateM.Result.ok.inj (hchecked.symm.trans hcheck)).2
  -- A run comes by some of the parts, and the checker by all of them.
  rcases Eval.locals_of_stmts hrun hname with hold | hnew
  · exact .inl ((hnames name).mpr (.inl (hagree name hold)))
  · obtain ⟨part, hpart, hdeclared⟩ := List.mem_filterMap.mp hnew
    rcases part.declaredIn?_eq checker.scope.current with hsame | ⟨hglobal, decl, rfl⟩
    · have hbound := List.mem_filterMap.mpr ⟨part, hpart, hsame.trans hdeclared⟩
      exact .inl ((hnames name).mpr (.inr hbound))
    · exact .inr ⟨hglobal, decl, hpart, Option.some.inj hdeclared⟩

/-- The checker is in the body of a function at the top, and the machine in a call of one.  Their
innermost frames bind the same names, the one to types of the values that the other binds them to,
and so do their global frames.  All functions among the values are accepted ones. -/
structure InBody (known : FnDecl Stmt → Prop) (checker : Checker) (machine : Machine) : Prop where
  shape : ∃ result serial pushed,
    checker.scope = bodyScope checker.scope.globals checker.scope.locals result serial pushed
  accepted : ∀ decl, known decl → decl.Accepted checker.scope.globals
  globals : GlobalsFit known checker.scope.globals machine.scope.globals
  frame : ∃ (below : Array (Frame Value)) (frame : Frame Value),
    machine.scope.frames = below.push frame ∧ frame.parent = Scope.global ∧
      GlobalsFit known checker.scope.locals frame.bindings

/-- The statements declare no functions, do not count by a name that has another use, and mention
the names that they bind only where these are bound. -/
structure Stmt.Orderly (locals : Bindings Ty) (statements : List Stmt) : Prop where
  apart : ∀ part ∈ partsOfAll statements,
    part.Apart ((partsOfAll statements).filterMap counter?)
  counts : CountersInt ((partsOfAll statements).filterMap counter?) locals
  wellScoped :
    wellScopedAll (declaredBy statements ++ locals.keys) locals.keys statements = true

theorem Stmt.declared?_of_binds {stmt : Stmt} {name : String} (h : stmt.Binds name) :
    stmt.declared? = some name := by
  cases stmt <;> simp_all [Binds, bound?, counter?, declared?]

/-- By induction on the depth of calls: calls of accepted functions give values of their types. -/
theorem Eval.answers_callWithin {known : FnDecl Stmt → Prop} {globals : Bindings Ty}
    (hknown : ∀ decl, known decl → decl.Accepted globals) (host : Host) (depth : Nat) :
    Answers known globals (callWithin host depth) := by
  induction depth with
  | zero => exact fun _ _ _ _ _ _ hm => ⟨Halt.ofValues_outOfFuel, hm.2⟩
  | succ depth ih => exact answers_call hknown ih depth

/-- In the body of a function, orderly statements that pass the check bind each name to a value of
the type that the checker binds it to. -/
theorem hasType_of_run {known : FnDecl Stmt → Prop} (hbody : InBody known checker machine)
    (horderly : Stmt.Orderly checker.scope.locals statements)
    (hpasses : Check.Passes (Check.stmts statements) checker after)
    (hrun : Eval.stmts host (Eval.callWithin host depth) fuel statements machine =
      .ok flow final) (name : String) (value : Value)
    (hvalue : final.scope.locals[name]? = some value) :
    ∃ type, after.scope.locals[name]? = some type ∧ value.hasType type = true := by
  obtain ⟨result, serial, pushed, hscope⟩ := hbody.shape
  obtain ⟨below, frame, hframes, hparent, hfit⟩ := hbody.frame
  obtain ⟨later, hafter, hadvance⟩ :=
    Check.advance_stmts statements hpasses hscope horderly.counts horderly.apart
  have hlocals : after.scope.locals = later := by
    rw [hafter]
    exact Scope.locals_push
  have hnames : ∀ name ∈ later,
      name ∈ Stmt.declaredBy statements ++ checker.scope.locals.keys := by
    intro name hmem
    rw [List.mem_append, Std.ExtTreeMap.mem_keys]
    rcases hadvance.names name hmem with hold | ⟨part, hpart, hbinds⟩
    · exact .inr hold
    · exact .inl (List.mem_filterMap.mpr ⟨part, hpart, Stmt.declared?_of_binds hbinds⟩)
  have htyped := hadvance.settled later _ _ (.refl later) hnames
    (fun _ => Std.ExtTreeMap.mem_keys.mp) horderly.wellScoped
  let setting : Setting := ⟨known, checker.scope.globals, later, below⟩
  -- What is bound before the run has the types that are known at the end of the check.
  have hstart : setting.Holds checker.scope.locals.keys machine := by
    refine ⟨hbody.globals, frame, hframes, hparent, ?_, ?_⟩
    · intro name value hfound
      obtain ⟨type, htype, hsound⟩ := hfit.fits name value hfound
      exact ⟨type, hadvance.grows name type htype, hsound⟩
    · exact fun name hmem => hfit.bound name (Std.ExtTreeMap.mem_keys.mp hmem)
  have hruns : setting.Runs checker.scope.locals.keys checker.scope.locals.keys result
      (Eval.stmts host (Eval.callWithin host depth) fuel statements) :=
    Setting.runs_stmts (Eval.answers_callWithin hbody.accepted host depth) fuel hnames statements
      htyped horderly.wellScoped
  have hend := hruns machine hstart
  rw [hrun] at hend
  obtain ⟨⟨-, last, hlast, -, hfits, -⟩, -⟩ := hend
  obtain ⟨⟨globals, frames, count⟩, console⟩ := final
  obtain rfl : frames = below.push last := hlast
  rw [Scope.locals_push] at hvalue
  obtain ⟨type, htype, hsound⟩ := hfits name value hvalue
  exact ⟨type, hlocals ▸ htype, hsound.typed⟩

/-- What is bound in the innermost frame of a run is bound in that of the checker.  It may be a
function that the checker does not know only if it is declared in the global frame; and in the body
of a function orderly statements bind each name to a value of the type that the checker knows. -/
theorem checked_locals_of_run (hcheck : Check.stmts statements checker = .ok () after)
    (hrun : Eval.stmts host (Eval.callWithin host depth) fuel statements machine =
      .ok flow final) :
    ((∀ name ∈ machine.scope.locals, name ∈ checker.scope.locals) →
      ∀ name ∈ final.scope.locals, name ∈ after.scope.locals ∨
        checker.scope.current = Scope.global ∧
          ∃ decl, .function decl ∈ Stmt.partsOfAll statements ∧ decl.name = name) ∧
    ∀ known, InBody known checker machine → Stmt.Orderly checker.scope.locals statements →
      after.recorded = [] → ∀ (name : String) (value : Value),
        final.scope.locals[name]? = some value →
          ∃ type, after.scope.locals[name]? = some type ∧ value.hasType type = true :=
  ⟨fun hagree => mem_locals_of_run hagree hcheck hrun,
    fun _ hbody horderly hclean => hasType_of_run hbody horderly ⟨hcheck, hclean⟩ hrun⟩

end Both

/-- The statements `let s = 0` and `for i in 0..2 { s = s + i }`. -/
def countedSum : List Stmt :=
  [.bind "s" (.int 0 default) default,
    .range "i" (.int 0 default) (.int 2 default)
      ⟨[.expr (.assign (.name "s" default)
        (.binary .add (.name "s" default) (.name "i" default) default) default)], default⟩ default]

theorem orderly_countedSum : Stmt.Orderly ∅ countedSum where
  apart := by
    have hcounters : (Stmt.partsOfAll countedSum).filterMap Stmt.counter? = ["i"] := rfl
    rw [hcounters]
    intro part hpart
    simp only [countedSum, Stmt.partsOfAll, Stmt.parts, Stmt.partsOfBlock, List.append_nil,
      List.cons_append, List.nil_append, List.mem_cons, List.not_mem_nil, or_false] at hpart
    rcases hpart with rfl | rfl | rfl
    · exact ⟨rfl, by simp [Stmt.bound?], by simp [Stmt.counter?]⟩
    · exact ⟨rfl, by simp [Stmt.bound?], by simp [Stmt.counter?]⟩
    · exact ⟨rfl, by simp [Stmt.bound?], by simp [Stmt.counter?]⟩
  counts _ _ _ htype := by simp at htype
  wellScoped := by decide +kernel

/-- The checker in the body of a function without parameters. -/
def Checker.inBody : Checker :=
  { Checker.start with scope := Checker.start.scope.push Scope.global (some .void) }

/-- The machine in a call of a function without parameters. -/
def Machine.inCall : Machine :=
  { Machine.start with scope := Machine.start.scope.push Scope.global none }

theorem inBody_inCall : InBody (fun _ => False) .inBody .inCall where
  shape := ⟨.void, 1, 1, rfl⟩
  accepted _ h := h.elim
  globals := Eval.globalsFit_start _
  frame := by
    refine ⟨#[], _, rfl, rfl, ?_, ?_⟩
    · exact fun _ _ hfound => absurd (Scope.mem_of_getElem? hfound) Std.ExtTreeMap.not_mem_empty
    · exact fun _ hbound => absurd hbound Std.ExtTreeMap.not_mem_empty

theorem checked_locals_of_countedSum : ∃ after final,
    Check.stmts countedSum .inBody = .ok () after ∧ after.recorded = [] ∧
    Eval.stmts (.accepting default) (Eval.callWithin (.accepting default) 0) 3 countedSum
      .inCall = .ok .normal final ∧
    (∀ name ∈ final.scope.locals, name ∈ after.scope.locals) ∧
    ∀ (name : String) (value : Value), final.scope.locals[name]? = some value →
      ∃ type, after.scope.locals[name]? = some type ∧ value.hasType type = true := by
  obtain ⟨after, hcheck, hclean⟩ : ∃ after, Check.stmts countedSum .inBody = .ok () after ∧
      after.recorded = [] := ⟨_, rfl, rfl⟩
  obtain ⟨final, hrun⟩ : ∃ final, Eval.stmts (.accepting default)
      (Eval.callWithin (.accepting default) 0) 3 countedSum .inCall = .ok .normal final :=
    ⟨_, rfl⟩
  obtain ⟨hnames, htypes⟩ := checked_locals_of_run hcheck hrun
  refine ⟨after, final, hcheck, hclean, hrun, fun name hname => ?_,
    htypes _ inBody_inCall orderly_countedSum hclean⟩
  have hnone : ∀ name ∈ Machine.inCall.scope.locals, name ∈ Checker.inBody.scope.locals :=
    fun _ hbound => absurd hbound Std.ExtTreeMap.not_mem_empty
  exact (hnames hnone name hname).resolve_right fun hglobal => absurd hglobal.1 (by decide)

/-! ### A function that the checker passes over -/

/-- The innermost frames of the checker and of the machine bind the same names, the one to types of
the values that the other binds them to, and none of them or both are the global frame. -/
structure FramesAgree (checker : Checker) (machine : Machine) : Prop where
  top : checker.scope.current = Scope.global ↔ machine.scope.current = Scope.global
  names : ∀ name, name ∈ checker.scope.locals ↔ name ∈ machine.scope.locals
  types : ∀ (name : String) (type : Ty) (value : Value), checker.scope.locals[name]? = some type →
    machine.scope.locals[name]? = some value → value.hasType type = true

theorem framesAgree_start : FramesAgree .start .start where
  top := Iff.rfl
  names name := by
    show name ∈ Checker.start.scope.globals ↔ name ∈ Machine.start.scope.globals
    rw [Checker.start, Machine.start, Scope.mem_ofGlobals, Scope.mem_ofGlobals, List.map_map,
      List.map_map]
    rfl
  types name type value htype hvalue := by
    have hfit := Eval.globalsFit_start fun _ => True
    obtain ⟨other, hother, hsound⟩ := hfit.fits name value hvalue
    obtain rfl : type = other := Option.some.inj (htype.symm.trans hother)
    exact hsound.typed

/-- A function that is declared in a block. -/
def functionInBlock : FnDecl Stmt := ⟨⟨0, 2⟩, "f", [], .void, ⟨[], default⟩, default⟩

/-- The block, as it may stand at the top of a program. -/
def blockWithFunction : List Stmt := [.block ⟨[.function functionInBlock], default⟩]

/-- The checker finds nothing wrong with the block and does not bind the name. -/
theorem check_blockWithFunction : ∃ after, Check.stmts blockWithFunction .start = .ok () after ∧
    after.recorded = [] ∧ "f" ∉ after.scope.locals := by
  obtain ⟨after, hcheck, -, hnames⟩ :=
    Check.declares_stmts Scope.global blockWithFunction .start rfl
  have hrecorded : after.recorded = [] := by
    rw [← (EStateM.Result.ok.inj hcheck).2]
    rfl
  refine ⟨after, hcheck, hrecorded, ?_⟩
  rw [hnames]
  show ¬ ("f" ∈ Checker.start.scope.globals ∨ _)
  rw [Checker.start, Scope.mem_ofGlobals]
  decide

/-- A run binds the name. -/
theorem run_blockWithFunction (host : Host) (depth fuel : Nat) :
    Eval.stmts host (Eval.callWithin host depth) fuel blockWithFunction .start =
      .ok .normal (Machine.start.declare functionInBlock) := rfl

theorem getElem?_functionInBlock :
    (Machine.start.declare functionInBlock).scope.locals["f"]? =
      some (.function functionInBlock ⟨0, 0⟩) := by
  rw [Machine.declare, Machine.insert, Scope.locals_insert, Scope.getElem?_insert]
  rfl

/-- So a run may bind a name that the checker does not know. -/
theorem checker_misses_function_in_block :
    ¬ ∀ (statements : List Stmt) (checker after : Checker) (machine final : Machine) (host : Host)
      (depth fuel : Nat), FramesAgree checker machine →
      Check.stmts statements checker = .ok () after → after.recorded = checker.recorded →
      Eval.stmts host (Eval.callWithin host depth) fuel statements machine = .ok .normal final →
      ∀ (name : String) (value : Value), final.scope.locals[name]? = some value →
        ∃ type, after.scope.locals[name]? = some type ∧ value.hasType type = true := by
  intro hall
  obtain ⟨after, hcheck, hrecorded, hmissing⟩ := check_blockWithFunction
  have hrun := run_blockWithFunction (.accepting default) 0 0
  obtain ⟨type, htype, -⟩ := hall _ _ _ _ _ _ _ _ framesAgree_start hcheck hrecorded hrun "f" _
    getElem?_functionInBlock
  exact hmissing (Scope.mem_of_getElem? htype)

end Quill
