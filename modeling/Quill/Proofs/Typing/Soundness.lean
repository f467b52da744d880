import Quill.Proofs.Typing.Runs
import Quill.Proofs.Watch

/-!
# Soundness of the checker

A program that the checker accepts, and whose functions bind their names first, never stops with a
complaint that the checker should have made: the only faults of its runs are those that depend on
the values it computes.  Every call gets arguments of the types of the parameters and gives a value
of the declared type.  This is shown by induction on the depth of calls.
-/

namespace Quill

/-! ### Calls -/

/-- What the checker has made sure of for every function of the program. -/
structure FnDecl.Accepted (globals : Bindings Ty) (decl : FnDecl Stmt) : Prop where
  bindsFirst : decl.BindsFirst
  typed : ∃ locals, decl.TypedBy globals locals
  path : decl.pathProblems = []

namespace Eval

variable {known : FnDecl Stmt → Prop} {globals : Bindings Ty} {host : Host} {invoke : Invoke}

/-- A function with a result does not reach the end of its body. -/
theorem ends_body_leaves {decl : FnDecl Stmt} (h : decl.Accepted globals)
    (hresult : decl.returnType ≠ .void) (fuel : Nat) (arguments : List Value) :
    Ends (body host invoke fuel decl arguments) Leaves := by
  have hreturns : ReturnPath.ofBlock decl.body = .returns := by
    have hpath := h.path
    unfold FnDecl.pathProblems at hpath
    cases hjudged : ReturnPath.ofBlock decl.body with
    | returns => rfl
    | mayFallThrough =>
        rw [if_pos ⟨hresult, hjudged⟩] at hpath
        exact absurd hpath (List.cons_ne_nil _ _)
  have hloops := h.bindsFirst.loops.resolve_left hresult
  exact Ends.bind fun _ => ends_block_leaves decl.body hloops hreturns

/-- The body of a function, right after the push for it. -/
theorem body_sound (hinvoke : Answers known globals invoke) {decl : FnDecl Stmt}
    (h : decl.Accepted globals) {arguments : List Value}
    (harguments : Value.SoundAll known (decl.parameters.map (·.type)) arguments) (fuel : Nat)
    {machine : Machine} (hm : GlobalsFit known globals machine.scope.globals) :
    Ensures (· = { machine with scope := machine.scope.push Scope.global none })
      (body host invoke fuel decl arguments)
      (fun flow inner => (GlobalsFit known globals inner.scope.globals ∧
        ∃ frame, inner.scope.frames = machine.scope.frames.push frame) ∧
        (Flow.result flow).Sound known decl.returnType)
      (fun halt inner => halt.OfValues ∧
        ∃ frame, inner.scope.frames = machine.scope.frames.push frame) := by
  obtain ⟨locals, htyped⟩ := h.typed
  -- In the frame just pushed nothing is bound yet, which agrees with every typing.
  let setting : Setting := ⟨known, globals, locals, machine.scope.frames⟩
  have hpushed : setting.Holds [] { machine with scope := machine.scope.push Scope.global none } :=
    ⟨hm, _, rfl, rfl, by simp [Fits], by simp⟩
  have hruns : setting.Runs decl.parameterNames decl.parameterNames decl.returnType
      (block host invoke fuel decl.body) :=
    Setting.runs_block hinvoke fuel htyped.names decl.body htyped.body h.bindsFirst.wellScoped
  have hbody : Ensures (· = { machine with scope := machine.scope.push Scope.global none })
      (body host invoke fuel decl arguments)
      (fun flow inner => setting.Holds decl.parameterNames inner ∧
        flow.Holds (·.Sound known decl.returnType)) setting.Stops := by
    have hbind : Ensures (· = { machine with scope := machine.scope.push Scope.global none })
        (change (bindArguments decl.parameters arguments))
        (fun _ => setting.Holds decl.parameterNames) setting.Stops := by
      apply Ensures.change
      rintro _ rfl
      refine (Setting.holds_bindArguments hpushed htyped.parameters harguments).of_subset ?_
      exact fun name hname => List.mem_append_left _ hname
    exact hbind.bind fun _ => hruns
  -- The end of the body is reached only where no result is asked for.
  have hends : Ends (body host invoke fuel decl arguments)
      fun flow => flow = .normal → decl.returnType = .void := by
    by_cases hresult : decl.returnType = .void
    · exact (Ends.any _).imp fun _ _ _ _ => hresult
    · refine (ends_body_leaves h hresult fuel arguments).imp ?_
      rintro _ _ ⟨value, rfl⟩ hnormal
      exact Flow.noConfusion hnormal
  refine (hbody.and hends).weaken (fun _ heq => ⟨heq, trivial⟩) ?_ fun _ _ hstop => hstop.1
  rintro flow inner ⟨⟨hinner, hflow⟩, hnormal⟩
  obtain ⟨hglobals, frame, hframes, -⟩ := hinner
  refine ⟨⟨hglobals, frame, hframes⟩, ?_⟩
  cases flow with
  | normal =>
      rw [hnormal rfl]
      exact Value.sound_of_isPlain rfl rfl
  | returned value => exact hflow

/-- A call gives a result of the right type if the calls inside it do. -/
theorem answers_call (hknown : ∀ decl, known decl → decl.Accepted globals)
    (hinvoke : Answers known globals invoke) (fuel : Nat) :
    Answers known globals (call host invoke fuel) := by
  intro decl arguments frames hdecl harguments
  have hlength := Value.length_eq_of_haveTypes harguments.typed
  rw [List.length_map] at hlength
  refine Ensures.call (fun _ _ harity => absurd hlength harity) (fun _ _ hgone => ?_) ?_
  -- The function was declared at the top, and the global frame is always there.
  · simp [Scope.resolve, Scope.handle?, FrameHandle.top] at hgone
  · rintro machine parent ⟨hglobals, rfl⟩ - hresolve
    obtain rfl : Scope.global = parent := by
      simpa [Scope.resolve, Scope.handle?, FrameHandle.top, Scope.global] using hresolve
    refine (body_sound hinvoke (hknown decl hdecl) harguments fuel hglobals).weaken (fun _ h => h)
      ?_ ?_
    · rintro flow inner ⟨⟨hinner, frame, hframes⟩, hresult⟩
      exact ⟨_, Scope.pop_of_frames hframes, ⟨hinner, rfl⟩, hresult⟩
    · rintro halt inner ⟨hhalt, frame, hframes⟩
      exact ⟨_, Scope.pop_of_frames hframes, hhalt, rfl⟩

/-- Each call has to get arguments of the types of the parameters and to give a value of the
declared type. -/
def typeWatch : Watch where
  enters decl arguments := Value.haveTypes arguments (decl.parameters.map (·.type))
  leaves decl result := result.hasType decl.returnType
  alarm := .uncheckedProgram "a call"
  audible := .inl rfl

theorem answers_watchedCall (h : Answers known globals invoke) :
    Answers known globals (watchedCall typeWatch invoke) := by
  intro decl arguments frames hdecl harguments
  unfold watchedCall
  rw [if_pos (show typeWatch.enters decl arguments = true from harguments.typed)]
  refine (h decl arguments frames hdecl harguments).bind fun result machine hm => ?_
  rw [if_pos (show typeWatch.leaves decl result = true from hm.2.typed)]
  exact hm

/-- By induction on the depth of calls: every call passes its tests. -/
theorem answers_watchedWithin (hknown : ∀ decl, known decl → decl.Accepted globals) (depth : Nat) :
    Answers known globals (watchedWithin host typeWatch depth) := by
  induction depth with
  | zero => exact fun _ _ _ _ _ _ hm => ⟨Halt.ofValues_outOfFuel, hm.2⟩
  | succ depth ih => exact answers_watchedCall (answers_call hknown ih depth)

/-! ### Whole programs -/

/-- Before anything is declared, the built-in functions are known on both sides. -/
theorem globalsFit_start (known : FnDecl Stmt → Prop) :
    GlobalsFit known Checker.start.scope.globals Machine.start.scope.globals := by
  have hfold : ∀ (builtins : List Builtin) (types : Bindings Ty) (values : Bindings Value),
      GlobalsFit known types values →
      GlobalsFit known
        ((builtins.map fun builtin => (builtin.name, builtin.signature)).foldl
          (fun bindings entry => bindings.insert entry.1 entry.2) types)
        ((builtins.map fun builtin => (builtin.name, Value.builtin builtin)).foldl
          (fun bindings entry => bindings.insert entry.1 entry.2) values) := by
    intro builtins
    induction builtins with
    | nil => exact fun _ _ h => h
    | cons builtin builtins ih =>
        intro types values h
        have hsound : (Value.builtin builtin).Sound known builtin.signature :=
          ⟨by simp [Value.hasType], trivial⟩
        exact ih _ _ (h.declare hsound)
  exact hfold Builtin.all ∅ ∅ ⟨by simp [Fits], by simp⟩

/-- The checker and the machine declare the functions of a program side by side. -/
theorem globalsFit_declare {types : Bindings Ty} {checker : Checker} {machine : Machine}
    {decls : List (FnDecl Stmt)} (hscope : checker.scope = ⟨types, #[], 0⟩)
    (hframes : machine.scope.frames = #[]) (hfit : GlobalsFit known types machine.scope.globals)
    (hknown : ∀ decl ∈ decls, known decl)
    (hnil : (decls.foldl Checker.declare checker).recorded = []) :
    ∃ declared, (decls.foldl Checker.declare checker).scope = ⟨declared, #[], 0⟩ ∧
      (decls.foldl Machine.declare machine).scope.frames = #[] ∧
      GlobalsFit known declared (decls.foldl Machine.declare machine).scope.globals := by
  induction decls generalizing types checker machine with
  | nil => exact ⟨types, hscope, hframes, hfit⟩
  | cons decl decls ih =>
      rw [List.foldl_cons] at hnil
      rw [List.foldl_cons, List.foldl_cons]
      -- A function that the checker declares without a complaint is bound by it, too.
      have hdeclared := (Checker.moves_foldl Checker.moves_declare decls).recorded hnil
      rw [Check.Passes.declare hdeclared] at hnil ⊢
      have hsound : (Value.function decl machine.scope.currentHandle).Sound known
          decl.signature := by
        have hhandle : machine.scope.currentHandle = .top := by
          simp [Scope.currentHandle, Scope.current, hframes, Scope.handle?, FrameHandle.top]
        exact ⟨by simp [Value.hasType], hknown decl List.mem_cons_self, hhandle⟩
      have hinserted : (machine.declare decl).scope =
          ⟨machine.scope.globals.insert decl.name (.function decl machine.scope.currentHandle),
            #[], machine.scope.pushed⟩ := by
        simp [Machine.declare, Machine.insert, Scope.insert, Scope.current, hframes, Scope.insertIn]
      have hchecked : (checker.insert decl.name decl.signature).scope =
          ⟨types.insert decl.name decl.signature, #[], 0⟩ := by
        rw [Checker.insert, hscope]
        rfl
      refine ih hchecked ?_ ?_ ?_ hnil
      · rw [hinserted]
      · rw [hinserted]
        exact hfit.declare hsound
      · exact fun other hother => hknown other (List.mem_cons_of_mem _ hother)

/-- The watched run of an accepted program stops only for reasons that depend on its values. -/
theorem watchedProgram_sound {program : List Stmt} {types : Bindings Ty}
    (hflat : ∀ stmt ∈ program, ∃ decl, stmt = .function decl)
    (hknown : ∀ decl, .function decl ∈ program → decl.Accepted types)
    (hframes : (declareFunctions program .start).scope.frames = #[])
    (hfit : GlobalsFit (fun decl => .function decl ∈ program) types
      (declareFunctions program .start).scope.globals) (fuel : Nat) :
    Ensures (· = Machine.start) (watchedProgram host typeWatch fuel program) (fun _ _ => True)
      (fun halt _ => halt.OfValues) := by
  let declared (machine : Machine) : Prop :=
    GlobalsFit (fun decl => .function decl ∈ program) types machine.scope.globals ∧
      machine.scope.frames = #[]
  have hanswers : Answers (fun decl => .function decl ∈ program) types
      (watchedWithin host typeWatch fuel) := answers_watchedWithin hknown fuel
  -- There are only functions at the top, and to declare them again is not to run them.
  have hstmts : Ensures declared (topLevel host (watchedWithin host typeWatch fuel) fuel program)
      (fun _ => declared) (fun halt _ => halt.OfValues) := by
    refine Ensures.topLevel fun stmt hstmt hnone => ?_
    obtain ⟨decl, rfl⟩ := hflat stmt hstmt
    exact absurd hnone (by simp [Stmt.decl?])
  have hmain : Ensures declared (callMain (watchedWithin host typeWatch fuel)) (fun _ => declared)
      (fun halt _ => halt.OfValues) := by
    refine Ensures.callMain (fun _ _ fault hfault => Halt.noConfusion hfault) ?_
    rintro decl frame hparameters machine ⟨⟨hglobals, hempty⟩, hget⟩
    obtain ⟨⟨globals, frames, pushed⟩, console⟩ := machine
    obtain rfl : frames = #[] := hempty
    rw [Scope.get?_global] at hget
    obtain ⟨type, -, hsound⟩ := hglobals.fits "main" _ hget
    obtain ⟨hdecl, rfl⟩ := hsound.functions
    have harguments : Value.SoundAll (fun decl => .function decl ∈ program)
        (decl.parameters.map (·.type)) [] := by
      rw [hparameters]
      exact ⟨rfl, by simp⟩
    exact ((hanswers decl [] #[] hdecl harguments).weaken (fun _ h => h) (fun _ _ h => h.1)
      fun _ _ h => h.1) _ ⟨hglobals, rfl⟩
  refine (Ensures.programVia ?_ hstmts hmain ?_).imp fun _ _ _ => trivial
  · rintro _ rfl
    exact ⟨hfit, hframes⟩
  · exact fun _ _ _ => Halt.ofValues_fault rfl

/-- What the checker has made sure of for a program that it accepts. -/
theorem accepted_of_passes {program : List Stmt} {after : Checker} (hfirst : BindsFirst program)
    (h : Check.Passes (Check.program program) Checker.start after) :
    ∃ types, (∀ decl, .function decl ∈ program → decl.Accepted types) ∧
      (declareFunctions program .start).scope.frames = #[] ∧
      GlobalsFit (fun decl => .function decl ∈ program) types
        (declareFunctions program .start).scope.globals := by
  obtain ⟨declared, hdeclare, hstmts⟩ := h.bind (Check.tidy_stmts program)
  obtain ⟨rfl, hnil⟩ := hdeclare.change
  have hmem : ∀ decl ∈ program.filterMap Stmt.decl?, .function decl ∈ program := by
    intro decl hdecl
    obtain ⟨stmt, hstmt, hsome⟩ := List.mem_filterMap.mp hdecl
    rw [← Stmt.eq_function_of_decl? hsome]
    exact hstmt
  have hstart := globalsFit_start fun decl => .function decl ∈ program
  obtain ⟨types, hscope, hframes, hfit⟩ := globalsFit_declare rfl rfl hstart hmem hnil
  refine ⟨types, fun decl hdecl => ?_, hframes, hfit⟩
  obtain ⟨htyped, hpath⟩ := Check.typedBy_of_passes_stmts hfirst hstmts hscope decl hdecl
  obtain ⟨other, heq, hbinds⟩ := (hfirst _ hdecl).decl
  obtain rfl : decl = other := Stmt.function.inj heq
  exact ⟨hbinds, htyped, hpath⟩

/-- Soundness: a program that the checker accepts, and whose functions bind their names first, never
ends in a complaint about types, about what is called, about the number of arguments or about a
frame that is gone, and each of its calls that returns gives a value of the declared type. -/
theorem accepted_programs_are_sound {program : List Stmt} {after : Checker}
    (hfirst : BindsFirst program)
    (haccepted : Check.program program Checker.start = .ok () after) (hclean : after.recorded = [])
    (host : Host) (fuel : Nat) :
    (∀ final, (∀ what, Eval.program host fuel program .start ≠
        .error (.fault (.uncheckedProgram what)) final) ∧
      (∀ name, Eval.program host fuel program .start ≠
        .error (.fault (.notCallable name)) final) ∧
      (∀ name expected received, Eval.program host fuel program .start ≠
        .error (.fault (.arityMismatch name expected received)) final) ∧
      ∀ name, Eval.program host fuel program .start ≠
        .error (.fault (.frameExpired name)) final) ∧
    watchedProgram host typeWatch fuel program .start = Eval.program host fuel program .start := by
  obtain ⟨types, hknown, hframes, hfit⟩ := accepted_of_passes hfirst ⟨haccepted, hclean⟩
  have hflat : ∀ stmt ∈ program, ∃ decl, stmt = .function decl := fun stmt hstmt =>
    (hfirst stmt hstmt).decl.imp fun _ h => h.1
  have hsound : Ensures (· = Machine.start) (watchedProgram host typeWatch fuel program) _ _ :=
    watchedProgram_sound hflat hknown hframes hfit fuel
  have hrun := hsound .start rfl
  have hforbids : ∀ fault, fault.dependsOnValues = false → ∀ final,
      watchedProgram host typeWatch fuel program .start ≠ .error (.fault fault) final := by
    intro fault hfault final heq
    rw [heq] at hrun
    rw [hrun fault rfl] at hfault
    exact Bool.noConfusion hfault
  -- The alarm does not depend on values, so it is never raised and the watch changes nothing.
  have hsame := watchedProgram_eq host typeWatch (hforbids typeWatch.alarm rfl)
  refine ⟨fun final => ?_, hsame⟩
  rw [← hsame]
  exact ⟨fun _ => hforbids _ rfl final, fun _ => hforbids _ rfl final,
    fun _ _ _ => hforbids _ rfl final, fun _ => hforbids _ rfl final⟩

/-- A function with a counting loop, called through a variable. -/
def sumOfTwo : List Source :=
  [⟨"sum", "fn f(a: [int]) int { let s = 0 for i in 0..2 { s = s + a[i] } return s } " ++
    "fn main() { let g = f let a = [1] a = a + 2 print(g(a)) }"⟩]

theorem sumOfTwo_sound :
    ∃ statements after, compile sumOfTwo = .ok statements ∧ BindsFirst statements ∧
      Check.program statements Checker.start = .ok () after ∧ after.recorded = [] ∧
      ∀ draw fuel, watchedProgram (.accepting draw) typeWatch fuel statements .start =
        Eval.program (.accepting draw) fuel statements .start := by
  have hfragment : (compile sumOfTwo).toOption.any
      (fun statements => decide (BindsFirst statements)) = true := by decide +kernel
  cases hcompile : compile sumOfTwo with
  | error failure =>
      rw [hcompile] at hfragment
      exact Bool.noConfusion hfragment
  | ok statements =>
      rw [hcompile] at hfragment
      have hfirst : BindsFirst statements := of_decide_eq_true hfragment
      obtain ⟨after, haccepted, hclean⟩ := passes_of_compile hcompile
      refine ⟨statements, after, rfl, hfirst, haccepted, hclean, fun draw fuel => ?_⟩
      exact (accepted_programs_are_sound hfirst haccepted hclean (.accepting draw) fuel).2

end Eval

end Quill
