import Quill.Proofs.Twins.Rules

/-!
# The walk of two runs through a program

The trees of expressions and statements are gone through once, for all twins: if the calls and the
built-in functions do the same in two runs, so does all of a program.
-/

namespace Quill

/-- A program without the end of its output. -/
def Eval.unfinished (host : Host) (invoke : Invoke) (fuel : Nat) (program : List Stmt) :
    Eval Unit := do
  change (declareFunctions program)
  topLevel host invoke fuel program
  callMain invoke

theorem Eval.programVia_eq (host : Host) (invoke : Invoke) (fuel : Nat) (program : List Stmt) :
    programVia host invoke fuel program =
      unfinished host invoke fuel program >>= fun _ => flush host := by
  simp only [programVia, unfinished, bind_assoc]

namespace Twins

variable {twins : Twins} {host host' : Host} {invoke invoke' : Invoke}

mutual

theorem step_locate (hnatives : twins.Natives host host') (hcalls : twins.Calls invoke invoke') :
    (expr : Expr) → twins.Step (Eval.locate host invoke expr) (Eval.locate host' invoke' expr)
      (Location.Holds twins.value)
  | .int _ _ | .float _ _ | .string _ _ | .bool _ _ =>
    Step.pure (twins.hereditary.plain _ rfl)
  | .name _ _ => Step.pure trivial
  | .array elements _ =>
    (step_evaluateAll hnatives hcalls elements).bind fun values hvalues =>
      Step.pure ((twins.hereditary.array values).mpr hvalues)
  | .subscript base index _ =>
    (step_locate hnatives hcalls base).bind fun _ hlocation =>
      (step_locate hnatives hcalls index).value.integer.bind fun _ _ => Step.pure hlocation
  | .call callee _ arguments _ => by
      refine Step.lookup.bind fun found hfound => ?_
      cases found with
      | none => exact Step.fail
      | some function =>
          refine (step_evaluateAll hnatives hcalls arguments).bind fun values hvalues => ?_
          exact (Step.apply hnatives hcalls (hfound function rfl) hvalues).bind
            fun _ hresult => Step.pure hresult
  | .binary _ left right _ =>
    (step_locate hnatives hcalls left).value.bind fun _ hleft =>
      (step_locate hnatives hcalls right).value.bind fun _ hright =>
        (Step.ofOperator hleft hright).bind fun _ hresult => Step.pure hresult
  | .assign target source _ =>
    (step_locate hnatives hcalls target).bind fun _ hlocation =>
      (step_locate hnatives hcalls source).value.bind fun _ hresult =>
        (Step.write hlocation hresult).bind fun _ _ =>
          Step.pure (twins.hereditary.plain _ rfl)

theorem step_evaluateAll (hnatives : twins.Natives host host')
    (hcalls : twins.Calls invoke invoke') :
    (exprs : List Expr) → twins.Step (Eval.evaluateAll host invoke exprs)
      (Eval.evaluateAll host' invoke' exprs) fun values => ∀ value ∈ values, twins.value value
  | [] => Step.pure (by simp)
  | expr :: exprs =>
    (step_locate hnatives hcalls expr).value.bind fun _ hfirst =>
      (step_evaluateAll hnatives hcalls exprs).bind fun _ hothers =>
        Step.pure (by simpa using ⟨hfirst, hothers⟩)

end

mutual

theorem step_stmt (hnatives : twins.Natives host host') (hcalls : twins.Calls invoke invoke')
    (fuel : Nat) : (stmt : Stmt) → (∀ part ∈ stmt.parts, twins.Admits part) →
    twins.Step (Eval.stmt host invoke fuel stmt) (Eval.stmt host' invoke' fuel stmt)
      (Flow.Holds twins.value)
  | .function decl, hparts => by
      have hdecl : twins.function decl := hparts _ (by simp [Stmt.parts]) decl rfl
      refine (Step.change (fun _ _ habreast => twins.declare habreast decl hdecl)
        fun _ => rfl).bind fun _ _ => Step.pure trivial
  | .ret expr _, _ =>
    (step_locate hnatives hcalls expr).value.bind fun _ hresult => Step.pure hresult
  | .bind name expr _, _ =>
    (step_locate hnatives hcalls expr).value.bind fun result hresult =>
      (Step.change (fun _ _ habreast => twins.insert habreast name result hresult)
        fun _ => rfl).bind fun _ _ => Step.pure trivial
  | .expr expr, _ =>
    (step_locate hnatives hcalls expr).value.bind fun _ _ => Step.pure trivial
  | .branch ⟨condition, body, span⟩ others otherwise, hparts => by
      simp only [Stmt.parts, List.mem_cons, List.mem_append, forall_eq_or_imp] at hparts
      exact Step.choose (step_locate hnatives hcalls condition).value.truth
        (step_block hnatives hcalls fuel body fun part hmem => hparts.2 part (.inl (.inl hmem)))
        (step_arms hnatives hcalls fuel others
          (fun part hmem => hparts.2 part (.inl (.inr hmem)))
          (step_lastBlock hnatives hcalls fuel otherwise fun part hmem =>
            hparts.2 part (.inr hmem)))
  | .loop condition body _, hparts =>
    Step.repeatWhile (step_locate hnatives hcalls condition).value.truth
      (step_block hnatives hcalls fuel body fun part hmem =>
        hparts part (List.mem_cons_of_mem _ hmem)) fuel
  | .range counter lower upper body _, hparts => by
      have hbody := step_block hnatives hcalls fuel body fun part hmem =>
        hparts part (List.mem_cons_of_mem _ hmem)
      refine (step_locate hnatives hcalls lower).value.integer.bind fun _ _ => ?_
      refine (step_locate hnatives hcalls upper).value.integer.bind fun _ _ => ?_
      -- Every round binds the counter anew and then runs the body.
      refine Step.countFrom (fun number => ?_) _ _
      exact (Step.change (fun _ _ habreast => twins.insert habreast counter _
        (twins.hereditary.plain _ rfl)) fun _ => rfl).bind fun _ _ => hbody
  | .block inner, hparts =>
    step_block hnatives hcalls fuel inner fun part hmem => hparts part (List.mem_cons_of_mem _ hmem)

theorem step_arms (hnatives : twins.Natives host host') (hcalls : twins.Calls invoke invoke')
    (fuel : Nat) {last last' : Eval Flow} : (arms : List (Arm Stmt)) →
    (∀ part ∈ Stmt.partsOfArms arms, twins.Admits part) →
    twins.Step last last' (Flow.Holds twins.value) →
    twins.Step (Eval.arms host invoke fuel arms last) (Eval.arms host' invoke' fuel arms last')
      (Flow.Holds twins.value)
  | [], _, hlast => hlast
  | ⟨condition, body, _⟩ :: others, hparts, hlast => by
      simp only [Stmt.partsOfArms, List.mem_append] at hparts
      exact Step.choose (step_locate hnatives hcalls condition).value.truth
        (step_block hnatives hcalls fuel body fun part hmem => hparts part (.inl hmem))
        (step_arms hnatives hcalls fuel others (fun part hmem => hparts part (.inr hmem)) hlast)

theorem step_lastBlock (hnatives : twins.Natives host host') (hcalls : twins.Calls invoke invoke')
    (fuel : Nat) : (last : Option (Block Stmt)) →
    (∀ part ∈ Stmt.partsOfLast last, twins.Admits part) →
    twins.Step (Eval.lastBlock host invoke fuel last) (Eval.lastBlock host' invoke' fuel last)
      (Flow.Holds twins.value)
  | some inner, hparts => step_block hnatives hcalls fuel inner hparts
  | none, _ => Step.pure trivial

theorem step_block (hnatives : twins.Natives host host') (hcalls : twins.Calls invoke invoke')
    (fuel : Nat) : (block : Block Stmt) →
    (∀ part ∈ Stmt.partsOfBlock block, twins.Admits part) →
    twins.Step (Eval.block host invoke fuel block) (Eval.block host' invoke' fuel block)
      (Flow.Holds twins.value)
  | ⟨body, _⟩, hparts => step_stmts hnatives hcalls fuel body hparts

theorem step_stmts (hnatives : twins.Natives host host') (hcalls : twins.Calls invoke invoke')
    (fuel : Nat) : (stmts : List Stmt) →
    (∀ part ∈ Stmt.partsOfAll stmts, twins.Admits part) →
    twins.Step (Eval.stmts host invoke fuel stmts) (Eval.stmts host' invoke' fuel stmts)
      (Flow.Holds twins.value)
  | [], _ => Step.pure trivial
  | stmt :: stmts, hparts => by
      simp only [Stmt.partsOfAll, List.mem_append] at hparts
      exact Step.andThen
        (step_stmt hnatives hcalls fuel stmt fun part hmem => hparts part (.inl hmem))
        (step_stmts hnatives hcalls fuel stmts fun part hmem => hparts part (.inr hmem))

end

theorem abreast_bindArguments {state state' : Machine} (habreast : twins.abreast state state')
    (parameters : List Parameter) {arguments : List Value}
    (harguments : ∀ argument ∈ arguments, twins.value argument) :
    twins.abreast (Eval.bindArguments parameters arguments state)
      (Eval.bindArguments parameters arguments state') := by
  unfold Eval.bindArguments
  have hvalues : ∀ pair ∈ parameters.zip arguments, twins.value pair.2 :=
    fun pair hmem => harguments pair.2 (List.of_mem_zip hmem).2
  generalize parameters.zip arguments = pairs at hvalues ⊢
  induction pairs generalizing state state' with
  | nil => exact habreast
  | cons pair pairs ih =>
      have hpair := hvalues pair List.mem_cons_self
      exact ih (twins.insert habreast pair.1.name pair.2 hpair) fun other hmem =>
        hvalues other (List.mem_cons_of_mem pair hmem)

theorem console_bindArguments (parameters : List Parameter) (arguments : List Value)
    (state : Machine) :
    (Eval.bindArguments parameters arguments state).console = state.console :=
  List.foldlRecOn (motive := fun later : Machine => later.console = state.console) _ _ rfl
    fun _ hlater _ _ => hlater

theorem step_body (hnatives : twins.Natives host host') (hcalls : twins.Calls invoke invoke')
    (fuel : Nat) {decl : FnDecl Stmt} {arguments : List Value}
    (harguments : ∀ argument ∈ arguments, twins.value argument)
    (hbody : ∀ part ∈ Stmt.partsOfBlock decl.body, twins.Admits part) :
    twins.Step (Eval.body host invoke fuel decl arguments)
      (Eval.body host' invoke' fuel decl arguments) (Flow.Holds twins.value) :=
  (Step.change (fun _ _ habreast => abreast_bindArguments habreast decl.parameters harguments)
    (console_bindArguments decl.parameters arguments)).bind
      fun _ _ => step_block hnatives hcalls fuel decl.body hbody

theorem abreast_declareFunctions {program : List Stmt}
    (hparts : ∀ part ∈ Stmt.partsOfAll program, twins.Admits part) {state state' : Machine}
    (habreast : twins.abreast state state') :
    twins.abreast (Eval.declareFunctions program state)
      (Eval.declareFunctions program state') := by
  unfold Eval.declareFunctions
  have hdecls : ∀ decl ∈ program.filterMap Stmt.decl?, twins.function decl := by
    intro decl hmem
    obtain ⟨stmt, hstmt, hdecl⟩ := List.mem_filterMap.mp hmem
    obtain rfl := Stmt.eq_function_of_decl? hdecl
    exact hparts (.function decl)
      (Stmt.mem_partsOfAll.mpr ⟨_, hstmt, by simp [Stmt.parts]⟩) decl rfl
  generalize program.filterMap Stmt.decl? = decls at hdecls ⊢
  induction decls generalizing state state' with
  | nil => exact habreast
  | cons decl decls ih =>
      have hdecl := hdecls decl List.mem_cons_self
      exact ih (twins.declare habreast decl hdecl) fun other hmem =>
        hdecls other (List.mem_cons_of_mem decl hmem)

theorem console_declareFunctions (program : List Stmt) (state : Machine) :
    (Eval.declareFunctions program state).console = state.console :=
  List.foldlRecOn (motive := fun later : Machine => later.console = state.console) _ _ rfl
    fun _ hlater _ _ => hlater

theorem step_topLevel (hnatives : twins.Natives host host') (hcalls : twins.Calls invoke invoke')
    (fuel : Nat) {program : List Stmt}
    (hparts : ∀ part ∈ Stmt.partsOfAll program, twins.Admits part) :
    twins.Step (Eval.topLevel host invoke fuel program)
      (Eval.topLevel host' invoke' fuel program) Any := by
  induction program with
  | nil => exact Step.pure trivial
  | cons stmt others ih =>
      simp only [Stmt.partsOfAll, List.mem_append] at hparts
      have hothers := ih fun part hmem => hparts part (.inr hmem)
      cases stmt with
      | function decl => exact hothers
      | _ =>
          refine (step_stmt hnatives hcalls fuel _ fun part hmem =>
            hparts part (.inl hmem)).bind fun flow _ => ?_
          cases flow with
          | normal => exact hothers
          | returned value => exact Step.fail

theorem step_callMain (hcalls : twins.Calls invoke invoke') :
    twins.Step (Eval.callMain invoke) (Eval.callMain invoke') Any := by
  refine Step.lookup.bind fun found hfound => ?_
  split
  · next decl frame =>
    split
    · exact (hcalls decl frame [] (hfound _ rfl) (by simp)).bind fun _ _ => Step.pure trivial
    · exact Step.throw
  · exact Step.throw

/-- A program up to the end of its output does the same in two runs if its calls and the built-in
functions do. -/
theorem step_unfinished (hnatives : twins.Natives host host')
    (hcalls : twins.Calls invoke invoke') (fuel : Nat) {program : List Stmt}
    (hparts : ∀ part ∈ Stmt.partsOfAll program, twins.Admits part) :
    twins.Step (Eval.unfinished host invoke fuel program)
      (Eval.unfinished host' invoke' fuel program) Any :=
  (Step.change (fun _ _ habreast => abreast_declareFunctions hparts habreast)
    (console_declareFunctions program)).bind fun _ _ =>
      (step_topLevel hnatives hcalls fuel hparts).bind fun _ _ => step_callMain hcalls

/-- Runs of one whole program go side by side if its calls, the built-in functions and the end of
the output do. -/
theorem step_programVia (hnatives : twins.Natives host host')
    (hcalls : twins.Calls invoke invoke')
    (hflush : twins.Step (Eval.flush host) (Eval.flush host') Any) (fuel : Nat)
    {program : List Stmt} (hparts : ∀ part ∈ Stmt.partsOfAll program, twins.Admits part) :
    twins.Step (Eval.programVia host invoke fuel program)
      (Eval.programVia host' invoke' fuel program) Any := by
  rw [Eval.programVia_eq, Eval.programVia_eq]
  exact (step_unfinished hnatives hcalls fuel hparts).bind fun _ _ => hflush

/-! ### Runs in one machine -/

/-- While they are abreast the two runs have one machine, and any other scope in it would do. -/
structure Identical (twins : Twins) : Prop where
  same : ∀ {state state'}, twins.abreast state state' → state = state'
  rescope : ∀ {state} scope, twins.abreast state state →
    twins.abreast { state with scope := scope } { state with scope := scope }
  value : ∀ found, twins.value found
  admits : ∀ stmt, twins.Admits stmt

namespace Identical

theorem declaringFrame (h : twins.Identical) (decl : FnDecl Stmt) (frame : FrameHandle) :
    twins.Step (Eval.declaringFrame decl frame) (Eval.declaringFrame decl frame) Any := by
  refine Step.still (fun state state' habreast => ?_) fun _ state => ?_
  · cases h.same habreast
    unfold Eval.declaringFrame
    cases state.scope.resolve frame with
    | some id => exact .ok trivial habreast
    | none => exact .error habreast
  · unfold Eval.declaringFrame
    cases state.scope.resolve frame with
    | some id => exact .inl ⟨id, state.scope, rfl, trivial⟩
    | none => exact .inr ⟨_, rfl⟩

/-- Calls do the same if the calls inside of them do. -/
theorem calls_call (h : twins.Identical) (hnatives : twins.Natives host host')
    (hcalls : twins.Calls invoke invoke')
    (hframes : ∀ scope, (Discipline.frames scope).Governs invoke') (fuel : Nat) :
    twins.Calls (Eval.call host invoke fuel) (Eval.call host' invoke' fuel) := by
  intro decl frame arguments _ harguments
  unfold Eval.call
  split
  · exact Step.fail
  · refine (h.declaringFrame decl frame).bind fun parent _ => ?_
    have hbody : twins.Step (Eval.body host invoke fuel decl arguments)
        (Eval.body host' invoke' fuel decl arguments) (Flow.Holds twins.value) :=
      step_body hnatives hcalls fuel harguments fun part _ => h.admits part
    refine (hbody.inFrame (Eval.body_popsOwnFrame host' hframes fuel decl arguments) ?_ ?_).bind
      fun flow _ => Step.pure (h.value _)
    · intro state state' habreast
      cases h.same habreast
      exact h.rescope _ habreast
    · intro inner inner' outer habreast hpop
      cases h.same habreast
      exact ⟨outer, hpop, h.rescope outer habreast⟩

end Identical

end Twins

end Quill
