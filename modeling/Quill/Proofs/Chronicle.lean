import Quill.Proofs.Frames

/-!
# Chronicles

What is known of the values of a running program may grow as the run goes on.  A chronicle tells
what is known at each moment: which machines fit the moment, and which values are known then.  Every
single step leads on to a later moment, and what is known is never forgotten.

Two actions are alike at a moment if they do the same there and lead on to a later moment.  It is
shown here once, by going through the trees of expressions and statements, that two ways of making
calls that are alike at all moments, for functions and arguments that are known then, make all of a
program alike.  Nothing is asked of other calls, so a run makes no others.
-/

namespace Quill

/-- What is known at the moments of a run. -/
structure Chronicle (Moment : Type) where
  later : Moment → Moment → Prop
  machine : Moment → Machine → Prop
  value : Moment → Value → Prop
  refl : ∀ now, later now now
  trans : ∀ {first second third}, later first second → later second third → later first third
  hereditary : ∀ now, Value.Hereditary (value now)
  known : ∀ {now next}, later now next → ∀ {found}, value now found → value next found
  get : ∀ {now state}, machine now state → ∀ name found,
    state.scope.get? name = some found → value now found
  bind : ∀ {now state}, machine now state → ∀ id name stored, value now stored →
    ∃ next, later now next ∧
      machine next { state with scope := state.scope.insertIn id name stored }
  declare : ∀ {now state}, machine now state → ∀ decl,
    ∃ next, later now next ∧ machine next (state.declare decl)
  push : ∀ {now state}, machine now state → ∀ parent,
    ∃ next, later now next ∧ machine next { state with scope := state.scope.push parent none }
  pop : ∀ {now state}, machine now state → ∀ outer, state.scope.pop = .ok outer →
    ∃ next, later now next ∧ machine next { state with scope := outer }
  exchange : ∀ {now state}, machine now state → ∀ console,
    machine now { state with console := console }

namespace Chronicle

variable {Moment : Type} {chronicle : Chronicle Moment} {now : Moment} {α β : Type}

/-- How an action ends that begins at a moment: at a later one. -/
def LeadsOn (chronicle : Chronicle Moment) (now : Moment) (good : Moment → α → Prop) :
    EStateM.Result Halt Machine α → Prop
  | .ok result state =>
    ∃ next, chronicle.later now next ∧ chronicle.machine next state ∧ good next result
  | .error _ state => ∃ next, chronicle.later now next ∧ chronicle.machine next state

/-- What leads on from a later moment leads on from an earlier one. -/
theorem LeadsOn.of_later {next : Moment} {good : Moment → α → Prop}
    {ending : EStateM.Result Halt Machine α} (h : chronicle.LeadsOn next good ending)
    (hlater : chronicle.later now next) : chronicle.LeadsOn now good ending := by
  cases ending with
  | ok result state =>
      obtain ⟨last, hlast, hstate, hgood⟩ := h
      exact ⟨last, chronicle.trans hlater hlast, hstate, hgood⟩
  | error halt state =>
      obtain ⟨last, hlast, hstate⟩ := h
      exact ⟨last, chronicle.trans hlater hlast, hstate⟩

/-- At the moment the two actions do the same, and lead on to a later one. -/
structure Alike (chronicle : Chronicle Moment) (now : Moment) (first second : Eval α)
    (good : Moment → α → Prop) : Prop where
  same : ∀ state, chronicle.machine now state → first state = second state
  leads : ∀ state, chronicle.machine now state → chronicle.LeadsOn now good (first state)

/-- Nothing is asked of the result. -/
abbrev Any {α : Type} : Moment → α → Prop := fun _ _ => True

/-- What is known of a statement that returned. -/
abbrev flow (chronicle : Chronicle Moment) : Moment → Flow → Prop :=
  fun now => Flow.Holds (chronicle.value now)

/-- All values are known. -/
abbrev values (chronicle : Chronicle Moment) : Moment → List Value → Prop :=
  fun now found => ∀ value ∈ found, chronicle.value now value

/-- The values that a location holds are known. -/
abbrev location (chronicle : Chronicle Moment) : Moment → Location → Prop :=
  fun now => Location.Holds (chronicle.value now)

/-- What a location holds stays known. -/
theorem location_known {next : Moment} (hlater : chronicle.later now next) {place : Location}
    (h : chronicle.location now place) : chronicle.location next place := by
  induction place with
  | named name => exact trivial
  | temporary value => exact chronicle.known hlater h
  | element base index ih => exact ih h

namespace Alike

variable {good : Moment → α → Prop}

theorem pure {result : α} (hgood : good now result) :
    chronicle.Alike now (Pure.pure result) (Pure.pure result) good where
  same := fun _ _ => rfl
  leads := fun _ hstate => ⟨now, chronicle.refl now, hstate, hgood⟩

theorem fail {fault : Fault} :
    chronicle.Alike now (Eval.fail fault) (Eval.fail fault) good where
  same := fun _ _ => rfl
  leads := fun _ hstate => ⟨now, chronicle.refl now, hstate⟩

theorem throw {halt : Halt} : chronicle.Alike now (MonadExcept.throw halt : Eval α)
    (MonadExcept.throw halt) good where
  same := fun _ _ => rfl
  leads := fun _ hstate => ⟨now, chronicle.refl now, hstate⟩

/-- One action after another. -/
theorem bind {first second : Eval α} {more others : α → Eval β} {after : Moment → β → Prop}
    (h : chronicle.Alike now first second good)
    (hmore : ∀ next result, chronicle.later now next → good next result →
      chronicle.Alike next (more result) (others result) after) :
    chronicle.Alike now (first >>= more) (second >>= others) after := by
  constructor
  · intro state hstate
    have hsame := h.same state hstate
    have hleads := h.leads state hstate
    change EStateM.bind first more state = EStateM.bind second others state
    rw [EStateM.bind, EStateM.bind, ← hsame]
    cases hrun : first state with
    | error halt final => rfl
    | ok result final =>
        rw [hrun] at hleads
        obtain ⟨next, hlater, hfinal, hgood⟩ := hleads
        exact (hmore next result hlater hgood).same final hfinal
  · intro state hstate
    have hleads := h.leads state hstate
    change chronicle.LeadsOn now after (EStateM.bind first more state)
    rw [EStateM.bind]
    cases hrun : first state with
    | error halt final =>
        rw [hrun] at hleads
        exact hleads
    | ok result final =>
        rw [hrun] at hleads
        obtain ⟨next, hlater, hfinal, hgood⟩ := hleads
        exact ((hmore next result hlater hgood).leads final hfinal).of_later hlater

/-- A change of the machine that leads on. -/
theorem change {f : Machine → Machine} (h : ∀ state, chronicle.machine now state →
      ∃ next, chronicle.later now next ∧ chronicle.machine next (f state)) :
    chronicle.Alike now (Eval.change f) (Eval.change f) Any where
  same := fun _ _ => rfl
  leads := by
    intro state hstate
    obtain ⟨next, hlater, hnext⟩ := h state hstate
    exact ⟨next, hlater, hnext, trivial⟩

/-- The value of a name is known. -/
theorem lookup {name : String} :
    chronicle.Alike now (Eval.lookup name) (Eval.lookup name)
      fun next found => ∀ value, found = some value → chronicle.value next value where
  same := fun _ _ => rfl
  leads := fun _ hstate =>
    ⟨now, chronicle.refl now, hstate, fun value hfound => chronicle.get hstate name value hfound⟩

/-- What is read from a location is known. -/
theorem read {place : Location} (hplace : chronicle.location now place) :
    chronicle.Alike now (Eval.read place) (Eval.read place) chronicle.value where
  same := fun _ _ => rfl
  leads := by
    intro state hstate
    rw [Eval.read]
    cases hread : place.read state.scope with
    | ok value =>
        refine ⟨now, chronicle.refl now, hstate, ?_⟩
        exact Location.hereditary_of_read (chronicle.hereditary now) (chronicle.get hstate) hplace
          hread
    | error fault => exact ⟨now, chronicle.refl now, hstate⟩

/-- What is known may be written. -/
theorem write {place : Location} {value : Value} (hplace : chronicle.location now place)
    (hvalue : chronicle.value now value) :
    chronicle.Alike now (Eval.write place value) (Eval.write place value) Any where
  same := fun _ _ => rfl
  leads := by
    intro state hstate
    rw [Eval.write]
    cases hwrite : place.write state.scope value with
    | ok scope =>
        obtain ⟨name, stored, hstored, hupdate⟩ := Location.update_of_write
          (chronicle.hereditary now) (chronicle.get hstate) hplace hvalue hwrite
        obtain ⟨id, -, rfl⟩ := Option.map_eq_some_iff.1 hupdate
        obtain ⟨next, hlater, hnext⟩ := chronicle.bind hstate id name stored hstored
        exact ⟨next, hlater, hnext, trivial⟩
    | error fault => exact ⟨now, chronicle.refl now, hstate⟩

/-- An operator computes from known values a known one. -/
theorem ofOperator {left right : Value} {operator : Operator} (hleft : chronicle.value now left)
    (hright : chronicle.value now right) :
    chronicle.Alike now (Eval.ofExcept (left.apply operator right))
      (Eval.ofExcept (left.apply operator right)) chronicle.value := by
  cases hresult : left.apply operator right with
  | ok result => exact pure ((chronicle.hereditary now).apply hleft hright hresult)
  | error fault => exact fail

/-- The value at a location that is found. -/
theorem value {locate other : Eval Location}
    (h : chronicle.Alike now locate other chronicle.location) :
    chronicle.Alike now (Eval.value locate) (Eval.value other) chronicle.value :=
  h.bind fun _ _ _ hplace => read hplace

theorem truth {action other : Eval Value} (h : chronicle.Alike now action other chronicle.value) :
    chronicle.Alike now (Eval.truth action) (Eval.truth other) Any := by
  apply h.bind
  intro next found _ _
  cases found with
  | bool flag => exact pure trivial
  | _ => exact fail

theorem integer {action other : Eval Value}
    (h : chronicle.Alike now action other chronicle.value) :
    chronicle.Alike now (Eval.integer action) (Eval.integer other) Any := by
  apply h.bind
  intro next found _ _
  cases found with
  | int number => exact pure trivial
  | _ => exact fail

theorem andThen {first first' next next' : Eval Flow}
    (hfirst : chronicle.Alike now first first' chronicle.flow)
    (hnext : ∀ moment, chronicle.Alike moment next next' chronicle.flow) :
    chronicle.Alike now (Eval.andThen first next) (Eval.andThen first' next') chronicle.flow := by
  apply hfirst.bind
  intro moment flow _ hflow
  cases flow with
  | normal => exact hnext moment
  | returned value => exact pure hflow

theorem choose {condition condition' : Eval Bool} {yes yes' no no' : Eval Flow}
    (hcondition : chronicle.Alike now condition condition' Any)
    (hyes : ∀ moment, chronicle.Alike moment yes yes' chronicle.flow)
    (hno : ∀ moment, chronicle.Alike moment no no' chronicle.flow) :
    chronicle.Alike now (Eval.choose condition yes no) (Eval.choose condition' yes' no')
      chronicle.flow := by
  apply hcondition.bind
  intro moment flag _ _
  cases flag with
  | true => exact hyes moment
  | false => exact hno moment

/-- A loop with a condition, whose rounds are alike at all moments. -/
theorem repeatWhile {condition condition' : Eval Bool} {body body' : Eval Flow}
    (hcondition : ∀ moment, chronicle.Alike moment condition condition' Any)
    (hbody : ∀ moment, chronicle.Alike moment body body' chronicle.flow) (fuel : Nat)
    (now : Moment) :
    chronicle.Alike now (Eval.repeatWhile condition body fuel)
      (Eval.repeatWhile condition' body' fuel) chronicle.flow := by
  induction fuel generalizing now with
  | zero => exact ⟨fun _ _ => rfl, fun _ hstate => ⟨now, chronicle.refl now, hstate⟩⟩
  | succ fuel ih =>
      apply choose (hcondition now)
      · exact fun moment => andThen (hbody moment) ih
      · exact fun moment => pure trivial

/-- A loop that counts, whose rounds are alike at all moments. -/
theorem countFrom {body body' : Int64 → Eval Flow}
    (hbody : ∀ moment number, chronicle.Alike moment (body number) (body' number) chronicle.flow)
    (count : Nat) (first : Int64) (now : Moment) :
    chronicle.Alike now (Eval.countFrom body count first) (Eval.countFrom body' count first)
      chronicle.flow := by
  induction count generalizing first now with
  | zero => exact pure trivial
  | succ count ih => exact andThen (hbody now first) (ih (first + 1))

/-- A built-in function neither sees nor changes the scope. -/
theorem native {host : Host} (native : Builtin) (arguments : List Value) :
    chronicle.Alike now (Eval.interact (native.run host arguments))
      (Eval.interact (native.run host arguments)) chronicle.value where
  same := fun _ _ => rfl
  leads := by
    intro state hstate
    have hrun := native.run_ensures host arguments state.console
    rw [Eval.interact]
    cases hact : native.run host arguments state.console with
    | ok value console =>
        rw [hact] at hrun
        exact ⟨now, chronicle.refl now, chronicle.exchange hstate console,
          (chronicle.hereditary now).ofBuiltin native hrun⟩
    | error fault console =>
        exact ⟨now, chronicle.refl now, chronicle.exchange hstate console⟩

/-- A frame is pushed for the actions and popped behind them. -/
theorem inFrame {parent : FrameId} {first second : Eval α} (hpops : Eval.PopsOwnFrame first)
    (hgood : ∀ next last result, chronicle.later next last → good next result →
      good last result)
    (h : ∀ next, chronicle.later now next → chronicle.Alike next first second good) :
    chronicle.Alike now (Eval.inFrame parent first) (Eval.inFrame parent second) good := by
  constructor
  · intro state hstate
    obtain ⟨next, hlater, hpushed⟩ := chronicle.push hstate parent
    rw [Eval.inFrame_eq, Eval.inFrame_eq, (h next hlater).same _ hpushed]
  · intro state hstate
    obtain ⟨next, hlater, hpushed⟩ := chronicle.push hstate parent
    have hleads := (h next hlater).leads _ hpushed
    have hpop := hpops state parent
    cases hrun : first { state with scope := state.scope.push parent none } with
    | ok result inner =>
        rw [hrun] at hleads hpop
        obtain ⟨moment, hmoment, hinner, hresult⟩ := hleads
        obtain ⟨outer, houter, hends⟩ := hpop
        obtain ⟨last, hlast, hmachine⟩ := chronicle.pop hinner outer houter.pop
        rw [hends]
        exact ⟨last, chronicle.trans hlater (chronicle.trans hmoment hlast), hmachine,
          hgood moment last result hlast hresult⟩
    | error halt inner =>
        rw [hrun] at hleads hpop
        obtain ⟨moment, hmoment, hinner⟩ := hleads
        obtain ⟨outer, houter, hends⟩ := hpop
        obtain ⟨last, hlast, hmachine⟩ := chronicle.pop hinner outer houter.pop
        rw [hends]
        exact ⟨last, chronicle.trans hlater (chronicle.trans hmoment hlast), hmachine⟩

/-- Looking for the frame of a declaration changes nothing. -/
theorem declaringFrame {decl : FnDecl Stmt} {frame : FrameHandle} :
    chronicle.Alike now (Eval.declaringFrame decl frame) (Eval.declaringFrame decl frame)
      Any where
  same := fun _ _ => rfl
  leads := by
    intro state hstate
    rw [Eval.declaringFrame]
    cases state.scope.resolve frame with
    | some id => exact ⟨now, chronicle.refl now, hstate, trivial⟩
    | none => exact ⟨now, chronicle.refl now, hstate⟩

/-- Binding a known value in the innermost frame. -/
theorem insert {stored : Value} (name : String) (hstored : chronicle.value now stored) :
    chronicle.Alike now (Eval.change (·.insert name stored)) (Eval.change (·.insert name stored))
      Any :=
  change fun state hstate => chronicle.bind hstate state.scope.current name stored hstored

/-- Binding known arguments in the innermost frame. -/
theorem bindArguments {arguments : List Value} (parameters : List Parameter)
    (harguments : chronicle.values now arguments) :
    chronicle.Alike now (Eval.change (Eval.bindArguments parameters arguments))
      (Eval.change (Eval.bindArguments parameters arguments)) Any := by
  have hpairs : ∀ pair ∈ parameters.zip arguments, chronicle.value now pair.2 :=
    fun pair hpair => harguments pair.2 (List.of_mem_zip hpair).2
  apply change
  intro state hstate
  rw [Eval.bindArguments]
  -- Each binding leads on, and the arguments still to be bound stay known.
  generalize parameters.zip arguments = pairs at hpairs
  induction pairs generalizing now state with
  | nil => exact ⟨now, chronicle.refl now, hstate⟩
  | cons pair pairs ih =>
      obtain ⟨next, hlater, hnext⟩ := chronicle.bind hstate state.scope.current pair.1.name pair.2
        (hpairs pair List.mem_cons_self)
      obtain ⟨last, hlast, hmachine⟩ := ih (fun argument hargument =>
        chronicle.known hlater (harguments argument hargument)) _ hnext fun other hother =>
        chronicle.known hlater (hpairs other (List.mem_cons_of_mem _ hother))
      exact ⟨last, chronicle.trans hlater hlast, hmachine⟩

/-- Declaring the functions of a program. -/
theorem declareFunctions (program : List Stmt) :
    chronicle.Alike now (Eval.change (Eval.declareFunctions program))
      (Eval.change (Eval.declareFunctions program)) Any := by
  apply change
  intro state hstate
  rw [Eval.declareFunctions]
  generalize program.filterMap Stmt.decl? = decls
  induction decls generalizing now state with
  | nil => exact ⟨now, chronicle.refl now, hstate⟩
  | cons decl decls ih =>
      obtain ⟨next, hlater, hnext⟩ := chronicle.declare hstate decl
      obtain ⟨last, hlast, hmachine⟩ := ih _ hnext
      exact ⟨last, chronicle.trans hlater hlast, hmachine⟩

end Alike

/-! ### The walk through a program -/

/-- Two ways of making calls are alike at all moments, for functions and arguments that are known
then. -/
def CallsAlike (chronicle : Chronicle Moment) (invoke other : Invoke) : Prop :=
  ∀ now decl frame arguments, chronicle.value now (.function decl frame) →
    chronicle.values now arguments →
    chronicle.Alike now (invoke decl frame arguments) (other decl frame arguments) chronicle.value

section Walk

variable {host : Host} {invoke other : Invoke}

theorem alike_apply (hinvoke : chronicle.CallsAlike invoke other) {name : String}
    {callee : Value} {arguments : List Value} (hcallee : chronicle.value now callee)
    (harguments : chronicle.values now arguments) :
    chronicle.Alike now (Eval.apply host invoke name callee arguments)
      (Eval.apply host other name callee arguments) chronicle.value := by
  cases callee with
  | builtin native => exact Alike.native native arguments
  | function decl frame => exact hinvoke now decl frame arguments hcallee harguments
  | _ => exact Alike.fail

mutual

/-- Finding the location of an expression. -/
theorem alike_locate (hinvoke : chronicle.CallsAlike invoke other) : (expr : Expr) →
    (now : Moment) →
    chronicle.Alike now (Eval.locate host invoke expr) (Eval.locate host other expr)
      chronicle.location
  | .int _ _, now | .float _ _, now | .string _ _, now | .bool _ _, now =>
    Alike.pure ((chronicle.hereditary now).plain _ rfl)
  | .name _ _, _ => Alike.pure trivial
  | .array elements _, now => by
      apply (alike_evaluateAll hinvoke elements now).bind
      intro next values _ hvalues
      exact Alike.pure (((chronicle.hereditary next).array values).2 hvalues)
  | .subscript base index _, now => by
      apply (alike_locate hinvoke base now).bind
      intro next place _ hplace
      apply (alike_locate hinvoke index next).value.integer.bind
      intro last number hlater _
      exact Alike.pure (chronicle.location_known hlater hplace)
  | .call callee _ arguments _, now => by
      -- The callee is looked up before the arguments are evaluated, and stays known.
      apply Alike.lookup.bind
      intro next found _ hfound
      cases found with
      | none => exact Alike.fail
      | some function =>
          apply (alike_evaluateAll hinvoke arguments next).bind
          intro last values hlater hvalues
          have hfunction := chronicle.known hlater (hfound function rfl)
          apply (alike_apply hinvoke hfunction hvalues).bind
          intro _ result _ hresult
          exact Alike.pure hresult
  | .binary _ left right _, now => by
      apply (alike_locate hinvoke left now).value.bind
      intro next first _ hfirst
      apply (alike_locate hinvoke right next).value.bind
      intro last second hlater hsecond
      apply (Alike.ofOperator (chronicle.known hlater hfirst) hsecond).bind
      intro _ result _ hresult
      exact Alike.pure hresult
  | .assign target source _, now => by
      apply (alike_locate hinvoke target now).bind
      intro next place _ hplace
      apply (alike_locate hinvoke source next).value.bind
      intro last result hlater hresult
      apply (Alike.write (chronicle.location_known hlater hplace) hresult).bind
      intro final _ _ _
      exact Alike.pure ((chronicle.hereditary final).plain _ rfl)

/-- Evaluating expressions. -/
theorem alike_evaluateAll (hinvoke : chronicle.CallsAlike invoke other) : (exprs : List Expr) →
    (now : Moment) →
    chronicle.Alike now (Eval.evaluateAll host invoke exprs) (Eval.evaluateAll host other exprs)
      chronicle.values
  | [], _ => Alike.pure fun _ hvalue => nomatch hvalue
  | expr :: exprs, now => by
      apply (alike_locate hinvoke expr now).value.bind
      intro next first _ hfirst
      apply (alike_evaluateAll hinvoke exprs next).bind
      intro last others hlater hothers
      apply Alike.pure
      intro found hfound
      rcases List.mem_cons.1 hfound with rfl | hfound
      · exact chronicle.known hlater hfirst
      · exact hothers found hfound

end

mutual

/-- Running a statement. -/
theorem alike_stmt (hinvoke : chronicle.CallsAlike invoke other) (fuel : Nat) :
    (stmt : Stmt) → (now : Moment) →
    chronicle.Alike now (Eval.stmt host invoke fuel stmt) (Eval.stmt host other fuel stmt)
      chronicle.flow
  | .function decl, now => by
      apply (Alike.change fun state hstate => chronicle.declare hstate decl).bind
      intro _ _ _ _
      exact Alike.pure trivial
  | .ret expr _, now => by
      apply (alike_locate hinvoke expr now).value.bind
      intro _ result _ hresult
      exact Alike.pure hresult
  | .bind name expr _, now => by
      apply (alike_locate hinvoke expr now).value.bind
      intro next result _ hresult
      apply (Alike.insert name hresult).bind
      intro _ _ _ _
      exact Alike.pure trivial
  | .expr expr, now => by
      apply (alike_locate hinvoke expr now).value.bind
      intro _ _ _ _
      exact Alike.pure trivial
  | .branch ⟨condition, body, _⟩ others otherwise, now =>
    Alike.choose (alike_locate hinvoke condition now).value.truth (alike_block hinvoke fuel body)
      (alike_arms hinvoke fuel others (alike_lastBlock hinvoke fuel otherwise))
  | .loop condition body _, now =>
    Alike.repeatWhile (fun moment => (alike_locate hinvoke condition moment).value.truth)
      (alike_block hinvoke fuel body) fuel now
  | .range counter lower upper body _, now => by
      apply (alike_locate hinvoke lower now).value.integer.bind
      intro next first _ _
      apply (alike_locate hinvoke upper next).value.integer.bind
      intro last final _ _
      -- Every round binds the counter anew and then runs the body.
      apply Alike.countFrom
      intro moment number
      apply (Alike.insert counter ((chronicle.hereditary moment).plain (.int number) rfl)).bind
      intro inner _ _ _
      exact alike_block hinvoke fuel body inner
  | .block inner, now => alike_block hinvoke fuel inner now

theorem alike_arms (hinvoke : chronicle.CallsAlike invoke other) (fuel : Nat)
    {last last' : Eval Flow} : (arms : List (Arm Stmt)) →
    (∀ moment, chronicle.Alike moment last last' chronicle.flow) → (now : Moment) →
    chronicle.Alike now (Eval.arms host invoke fuel arms last)
      (Eval.arms host other fuel arms last') chronicle.flow
  | [], hlast, now => hlast now
  | ⟨condition, body, _⟩ :: others, hlast, now =>
    Alike.choose (alike_locate hinvoke condition now).value.truth (alike_block hinvoke fuel body)
      (alike_arms hinvoke fuel others hlast)

theorem alike_lastBlock (hinvoke : chronicle.CallsAlike invoke other) (fuel : Nat) :
    (last : Option (Block Stmt)) → (now : Moment) →
    chronicle.Alike now (Eval.lastBlock host invoke fuel last)
      (Eval.lastBlock host other fuel last) chronicle.flow
  | some inner, now => alike_block hinvoke fuel inner now
  | none, _ => Alike.pure trivial

/-- Running a block. -/
theorem alike_block (hinvoke : chronicle.CallsAlike invoke other) (fuel : Nat) :
    (block : Block Stmt) → (now : Moment) →
    chronicle.Alike now (Eval.block host invoke fuel block) (Eval.block host other fuel block)
      chronicle.flow
  | ⟨body, _⟩, now => alike_stmts hinvoke fuel body now

theorem alike_stmts (hinvoke : chronicle.CallsAlike invoke other) (fuel : Nat) :
    (stmts : List Stmt) → (now : Moment) →
    chronicle.Alike now (Eval.stmts host invoke fuel stmts) (Eval.stmts host other fuel stmts)
      chronicle.flow
  | [], _ => Alike.pure trivial
  | stmt :: stmts, now =>
    Alike.andThen (alike_stmt hinvoke fuel stmt now) (alike_stmts hinvoke fuel stmts)

end

/-! ### Calls and whole programs -/

/-- Running the body of a function, after binding its parameters. -/
theorem alike_body (hinvoke : chronicle.CallsAlike invoke other) (fuel : Nat) (decl : FnDecl Stmt)
    {arguments : List Value} (harguments : chronicle.values now arguments) :
    chronicle.Alike now (Eval.body host invoke fuel decl arguments)
      (Eval.body host other fuel decl arguments) chronicle.flow := by
  apply (Alike.bindArguments decl.parameters harguments).bind
  intro next _ _ _
  exact alike_block hinvoke fuel decl.body next

/-- What is known of a statement that returned stays known. -/
theorem flow_known {next : Moment} (hlater : chronicle.later now next) {flow : Flow}
    (h : chronicle.flow now flow) : chronicle.flow next flow := by
  cases flow with
  | normal => exact trivial
  | returned value => exact chronicle.known hlater h

/-- Calls are alike if the calls inside them are. -/
theorem callsAlike_call (hinvoke : chronicle.CallsAlike invoke other)
    (hframes : ∀ scope, (Discipline.frames scope).Governs invoke) (fuel : Nat) :
    chronicle.CallsAlike (Eval.call host invoke fuel) (Eval.call host other fuel) := by
  intro now decl frame arguments _ harguments
  rw [Eval.call, Eval.call]
  split
  · exact Alike.fail
  · apply Alike.declaringFrame.bind
    intro next parent hlater _
    have hpops := Eval.body_popsOwnFrame host hframes fuel decl arguments
    have hbody : ∀ moment, chronicle.later next moment →
        chronicle.Alike moment (Eval.body host invoke fuel decl arguments)
          (Eval.body host other fuel decl arguments) chronicle.flow := by
      intro moment hmoment
      apply alike_body hinvoke fuel decl
      exact fun argument hargument =>
        chronicle.known (chronicle.trans hlater hmoment) (harguments argument hargument)
    have hstays : ∀ moment last flow, chronicle.later moment last → chronicle.flow moment flow →
        chronicle.flow last flow := fun _ _ _ hlater hflow => flow_known hlater hflow
    apply (Alike.inFrame hpops hstays hbody).bind
    intro last flow _ hflow
    cases flow with
    | normal => exact Alike.pure ((chronicle.hereditary last).plain _ rfl)
    | returned value => exact Alike.pure hflow

/-- Running the statements at the top of a program. -/
theorem alike_topLevel (hinvoke : chronicle.CallsAlike invoke other) (fuel : Nat)
    (program : List Stmt) (now : Moment) :
    chronicle.Alike now (Eval.topLevel host invoke fuel program)
      (Eval.topLevel host other fuel program) Any := by
  induction program generalizing now with
  | nil => exact Alike.pure trivial
  | cons stmt others ih =>
      cases stmt with
      | function decl => exact ih now
      | _ =>
          apply (alike_stmt hinvoke fuel _ now).bind
          intro next flow _ _
          cases flow with
          | normal => exact ih next
          | returned value => exact Alike.fail

/-- Calling the function `main`. -/
theorem alike_callMain (hinvoke : chronicle.CallsAlike invoke other) (now : Moment) :
    chronicle.Alike now (Eval.callMain invoke) (Eval.callMain other) Any := by
  apply Alike.lookup.bind
  intro next found _ hfound
  split
  · next decl frame =>
      split
      · apply (hinvoke next decl frame [] (hfound _ rfl) fun _ hnone => nomatch hnone).bind
        intro _ _ _ _
        exact Alike.pure trivial
      · exact Alike.throw
  · exact Alike.throw

/-- Running a whole program. -/
theorem alike_programVia (hinvoke : chronicle.CallsAlike invoke other) (fuel : Nat)
    (program : List Stmt) (now : Moment) :
    chronicle.Alike now (Eval.programVia host invoke fuel program)
      (Eval.programVia host other fuel program) Any := by
  apply (Alike.declareFunctions program).bind
  intro next _ _ _
  apply (alike_topLevel hinvoke fuel program next).bind
  intro last _ _ _
  apply (alike_callMain hinvoke last).bind
  intro final _ _ _
  rw [Eval.flush]
  cases host.flushFailure with
  | some reason => exact Alike.fail
  | none => exact Alike.pure trivial

end Walk

end Chronicle

end Quill
