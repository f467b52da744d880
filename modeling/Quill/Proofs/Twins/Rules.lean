import Quill.Proofs.Frames
import Quill.Proofs.Locals

/-!
# Two runs side by side

Two runs of one program, under different hosts, with different ways of making calls or from
different machines, are compared step by step.  They go abreast as long as both do the same, and
then their machines belong together.  They may also part: then the second run has stopped for good,
while the first one goes on alone.

What it means to be abreast, and to have parted, is given by `Twins` together with the laws that
single steps have to obey.  This module gives one rule for each way in which the evaluator puts
actions together.
-/

namespace Quill

/-- How two runs of one program belong together. -/
structure Twins where
  /-- The machines of two runs that have done the same so far. -/
  abreast : Machine → Machine → Prop
  /-- The second run has stopped, and the first one has got on to the first console. -/
  parted : Console → Halt → Console → Prop
  value : Value → Prop
  /-- The functions that may be declared. -/
  function : FnDecl Stmt → Prop
  hereditary : Value.Hereditary value
  /-- Runs may part only if nothing is asked of values. -/
  free : ∀ {console halt other}, parted console halt other → ∀ found, value found
  get : ∀ {state state'}, abreast state state' → ∀ name,
    state.scope.get? name = state'.scope.get? name
  known : ∀ {state state'}, abreast state state' → ∀ name found,
    state.scope.get? name = some found → value found
  update : ∀ {state state'}, abreast state state' → ∀ name stored scope, value stored →
    state.scope.update? name stored = some scope →
    ∃ scope', state'.scope.update? name stored = some scope' ∧
      abreast { state with scope := scope } { state' with scope := scope' }
  insert : ∀ {state state'}, abreast state state' → ∀ name stored, value stored →
    abreast (state.insert name stored) (state'.insert name stored)
  declare : ∀ {state state'}, abreast state state' → ∀ decl, function decl →
    abreast (state.declare decl) (state'.declare decl)

namespace Eval

/-- The two endings have one result, or one reason to stop, and machines that belong together. -/
inductive Meets {α : Type} (abreast : Machine → Machine → Prop) (good : α → Prop) :
    EStateM.Result Halt Machine α → EStateM.Result Halt Machine α → Prop where
  | ok {result : α} {state state' : Machine} (hgood : good result)
      (habreast : abreast state state') : Meets abreast good (.ok result state) (.ok result state')
  | error {halt : Halt} {state state' : Machine} (habreast : abreast state state') :
      Meets abreast good (.error halt state) (.error halt state')

/-- What is known of the endings may be put in other words. -/
theorem Meets.imp {α : Type} {abreast other : Machine → Machine → Prop} {good : α → Prop}
    {ending ending' : EStateM.Result Halt Machine α} (h : Meets abreast good ending ending')
    (himp : ∀ state state', abreast state state' → other state state') :
    Meets other good ending ending' := by
  cases h with
  | ok hgood habreast => exact .ok hgood (himp _ _ habreast)
  | error habreast => exact .error (himp _ _ habreast)

/-- The results of actions that meet may be computed with. -/
theorem Meets.map {α β : Type} {abreast : Machine → Machine → Prop} {good : α → Prop}
    {after : β → Prop} {first second : Eval α} {state state' : Machine} {f : α → β}
    (h : Meets abreast good (first state) (second state'))
    (hf : ∀ result, good result → after (f result)) :
    Meets abreast after ((first >>= fun result => pure (f result)) state)
      ((second >>= fun result => pure (f result)) state') := by
  show Meets abreast after (EStateM.bind _ _ state) (EStateM.bind _ _ state')
  unfold EStateM.bind
  generalize first state = ending at h
  generalize second state' = ending' at h
  cases h with
  | ok hgood habreast => exact .ok (hf _ hgood) habreast
  | error habreast => exact .error habreast

/-- What a built-in function does is a part of the run. -/
theorem interact_bind {α β : Type} (first : Interact α) (more : α → Interact β) :
    interact (first >>= more) = interact first >>= fun result => interact (more result) := by
  funext state
  show interact (EStateM.bind first more) state = EStateM.bind _ _ state
  simp only [interact, EStateM.bind]
  cases first state.console with
  | ok result console => rfl
  | error fault console => rfl

end Eval

namespace Twins

variable {twins : Twins} {α β : Type} {good : α → Prop}

/-- How the first run can end after the second one has stopped. -/
def Alone (twins : Twins) (good : α → Prop) (halt : Halt) (console : Console) :
    EStateM.Result Halt Machine α → Prop
  | .ok result state => good result ∧ twins.parted state.console halt console
  | .error _ state => twins.parted state.console halt console

/-- How two runs that were abreast can end: both alike, or the second one by stopping for good. -/
def Ends (twins : Twins) (good : α → Prop)
    (ending ending' : EStateM.Result Halt Machine α) : Prop :=
  Eval.Meets twins.abreast good ending ending' ∨
    ∃ halt state', ending' = .error halt state' ∧ twins.Alone good halt state'.console ending

/-- Runs that cannot part end alike. -/
theorem Ends.meets {ending ending' : EStateM.Result Halt Machine α}
    (h : twins.Ends good ending ending')
    (hnever : ∀ console halt other, ¬ twins.parted console halt other) :
    Eval.Meets twins.abreast good ending ending' := by
  rcases h with hmeets | ⟨halt, state', -, halone⟩
  · exact hmeets
  · cases ending with
    | ok result state => exact absurd halone.2 (hnever _ _ _)
    | error reason state => exact absurd halone (hnever _ _ _)

/-- The two actions do the same, unless the second run stops, also before the first action. -/
structure Step (twins : Twins) (first second : Eval α) (good : α → Prop) : Prop where
  both : ∀ state state', twins.abreast state state' →
    twins.Ends good (first state) (second state')
  alone : ∀ state halt console, twins.parted state.console halt console →
    twins.Alone good halt console (first state)

/-- Nothing is asked of the result. -/
abbrev Any {α : Type} : α → Prop := fun _ => True

/-- Built-in functions do the same under both hosts. -/
def Natives (twins : Twins) (host host' : Host) : Prop :=
  ∀ (native : Builtin) (arguments : List Value),
    twins.Step (Eval.interact (native.run host arguments))
      (Eval.interact (native.run host' arguments)) twins.value

/-- Calls do the same in both ways of making them. -/
def Calls (twins : Twins) (invoke invoke' : Invoke) : Prop :=
  ∀ decl frame arguments, twins.value (.function decl frame) →
    (∀ argument ∈ arguments, twins.value argument) →
    twins.Step (invoke decl frame arguments) (invoke' decl frame arguments) twins.value

/-- The statement itself, apart from those in its blocks, may run. -/
def Admits (twins : Twins) (stmt : Stmt) : Prop :=
  ∀ decl, stmt = .function decl → twins.function decl

end Twins

/-! ### Locations in two scopes -/

namespace Location

variable {scope scope' : Scope Value}

/-- What is read depends on the values of names only. -/
theorem read_congr (hget : ∀ name, scope.get? name = scope'.get? name) (location : Location) :
    location.read scope = location.read scope' := by
  induction location with
  | named name => simp only [read, hget name]
  | temporary value => rfl
  | element base index ih => simp only [read, ih]

/-- A write that succeeds in one scope is, in both of them, one update of the same name by the same
value. -/
theorem write_congr {P : Value → Prop} (hP : Value.Hereditary P)
    (hget : ∀ name, scope.get? name = scope'.get? name)
    (hknown : ∀ name value, scope.get? name = some value → P value) {location : Location}
    (hlocation : location.Holds P) {value : Value} (hvalue : P value) :
    (∃ name stored, P stored ∧
      location.write scope value = (named name).write scope stored ∧
      location.write scope' value = (named name).write scope' stored) ∨
    ∃ fault, location.write scope value = .error fault ∧
      location.write scope' value = .error fault := by
  induction location generalizing value with
  | named name => exact .inl ⟨name, value, hvalue, rfl, rfl⟩
  | temporary held => exact .inr ⟨.notAssignable, rfl, rfl⟩
  | element base index ih =>
      have hread := base.read_congr hget
      simp only [write, ← hread]
      cases haggregate : base.read scope with
      | error fault => exact .inr ⟨fault, rfl, rfl⟩
      | ok aggregate =>
          simp only
          cases hstore : aggregate.storeAt index value with
          | error fault => exact .inr ⟨fault, rfl, rfl⟩
          | ok updated =>
              -- The aggregate that was read is written back with the value in it.
              have hbase : base.Holds P := hlocation
              have hgood := hereditary_of_read hP hknown hbase haggregate
              exact ih hbase (hP.storeAt hgood hvalue hstore)

end Location

namespace Twins

variable {twins : Twins} {α β : Type} {good : α → Prop}

/-! ### One rule for each way of putting actions together -/

namespace Step

/-- An action that leaves the console alone and, while the runs are abreast, does the same in
both. -/
theorem still {first second : Eval α}
    (hboth : ∀ state state', twins.abreast state state' →
      Eval.Meets twins.abreast good (first state) (second state'))
    (halone : (∀ found, twins.value found) → ∀ state,
      (∃ result scope, first state = .ok result { state with scope := scope } ∧ good result) ∨
        ∃ halt, first state = .error halt state) : twins.Step first second good where
  both state state' habreast := .inl (hboth state state' habreast)
  alone state halt console hparted := by
    rcases halone (twins.free hparted) state with ⟨result, scope, hfirst, hgood⟩ | ⟨reason, hfirst⟩
    · rw [hfirst]
      exact ⟨hgood, hparted⟩
    · rw [hfirst]
      exact hparted

theorem pure {result : α} (hgood : good result) :
    twins.Step (Pure.pure result) (Pure.pure result) good :=
  still (fun _ _ habreast => .ok hgood habreast)
    fun _ state => .inl ⟨result, state.scope, rfl, hgood⟩

theorem throw {halt : Halt} :
    twins.Step (MonadExcept.throw halt : Eval α) (MonadExcept.throw halt) good :=
  still (fun _ _ habreast => .error habreast) fun _ _ => .inr ⟨halt, rfl⟩

theorem fail {fault : Fault} : twins.Step (Eval.fail fault) (Eval.fail fault) good :=
  still (fun _ _ habreast => .error habreast) fun _ _ => .inr ⟨.fault fault, rfl⟩

theorem bind {first second : Eval α} {more others : α → Eval β} {after : β → Prop}
    (h : twins.Step first second good)
    (hmore : ∀ result, good result → twins.Step (more result) (others result) after) :
    twins.Step (first >>= more) (second >>= others) after := by
  -- The first run goes on alone after the second one has stopped.
  have hgoesOn : ∀ {state : Machine} {halt : Halt} {console : Console},
      twins.Alone good halt console (first state) →
      twins.Alone after halt console ((first >>= more) state) := by
    intro state halt console halone
    show twins.Alone after halt console (EStateM.bind first more state)
    unfold EStateM.bind
    cases hfirst : first state with
    | ok result middle =>
        rw [hfirst] at halone
        exact (hmore result halone.1).alone middle halt console halone.2
    | error reason middle =>
        rw [hfirst] at halone
        exact halone
  refine ⟨fun state state' habreast => ?_, fun state halt console hparted =>
    hgoesOn (h.alone state halt console hparted)⟩
  rcases h.both state state' habreast with hmeets | ⟨halt, final, hsecond, halone⟩
  · show twins.Ends after (EStateM.bind first more state) (EStateM.bind second others state')
    unfold EStateM.bind
    generalize first state = ending at hmeets
    generalize second state' = ending' at hmeets
    cases hmeets with
    | ok hgood hafter => exact (hmore _ hgood).both _ _ hafter
    | error hafter => exact .inl (.error hafter)
  · refine .inr ⟨halt, final, ?_, hgoesOn halone⟩
    show EStateM.bind second others state' = _
    simp only [EStateM.bind, hsecond]

theorem change {f : Machine → Machine}
    (h : ∀ state state', twins.abreast state state' → twins.abreast (f state) (f state'))
    (hconsole : ∀ state, (f state).console = state.console) :
    twins.Step (Eval.change f) (Eval.change f) Any := by
  refine still (fun state state' habreast => .ok trivial (h state state' habreast))
    fun _ state => .inl ⟨(), (f state).scope, ?_, trivial⟩
  rw [Eval.change, ← hconsole state]

theorem lookup {name : String} :
    twins.Step (Eval.lookup name) (Eval.lookup name)
      fun found => ∀ value, found = some value → twins.value value := by
  refine still (fun state state' habreast => ?_)
    fun hfree state => .inl ⟨_, state.scope, rfl, fun value _ => hfree value⟩
  rw [Eval.lookup, Eval.lookup, ← twins.get habreast name]
  exact .ok (twins.known habreast name) habreast

theorem read {location : Location} (hlocation : location.Holds twins.value) :
    twins.Step (Eval.read location) (Eval.read location) twins.value := by
  refine still (fun state state' habreast => ?_) fun hfree state => ?_
  · rw [Eval.read, Eval.read, ← location.read_congr (twins.get habreast)]
    cases hread : location.read state.scope with
    | ok value =>
        exact .ok (Location.hereditary_of_read twins.hereditary (twins.known habreast) hlocation
          hread) habreast
    | error fault => exact .error habreast
  · rw [Eval.read]
    cases location.read state.scope with
    | ok value => exact .inl ⟨value, state.scope, rfl, hfree value⟩
    | error fault => exact .inr ⟨.fault fault, rfl⟩

theorem write {location : Location} {value : Value} (hlocation : location.Holds twins.value)
    (hvalue : twins.value value) :
    twins.Step (Eval.write location value) (Eval.write location value) Any := by
  refine still (fun state state' habreast => ?_) fun _ state => ?_
  · rw [Eval.write, Eval.write]
    rcases Location.write_congr twins.hereditary (twins.get habreast) (twins.known habreast)
      hlocation hvalue with ⟨name, stored, hstored, hwrite, hwrite'⟩ | ⟨fault, hwrite, hwrite'⟩
    · rw [hwrite, hwrite', Location.write, Location.write]
      cases hupdate : state.scope.update? name stored with
      | some scope =>
          obtain ⟨scope', hupdate', hafter⟩ :=
            twins.update habreast name stored scope hstored hupdate
          rw [hupdate']
          exact .ok trivial hafter
      | none =>
          -- A name without a value in the one run has none in the other.
          have hnone := Scope.update?_eq_none_iff.mp hupdate
          rw [twins.get habreast] at hnone
          rw [Scope.update?_eq_none_iff.mpr hnone]
          exact .error habreast
    · rw [hwrite, hwrite']
      exact .error habreast
  · rw [Eval.write]
    cases location.write state.scope value with
    | ok scope => exact .inl ⟨(), scope, rfl, trivial⟩
    | error fault => exact .inr ⟨.fault fault, rfl⟩

theorem ofOperator {left right : Value} {operator : Operator} (hleft : twins.value left)
    (hright : twins.value right) :
    twins.Step (Eval.ofExcept (left.apply operator right))
      (Eval.ofExcept (left.apply operator right)) twins.value := by
  cases hresult : left.apply operator right with
  | ok result => exact pure (twins.hereditary.apply hleft hright hresult)
  | error fault => exact fail

theorem value {locate locate' : Eval Location}
    (h : twins.Step locate locate' (Location.Holds twins.value)) :
    twins.Step (Eval.value locate) (Eval.value locate') twins.value :=
  h.bind fun _ hlocation => read hlocation

theorem truth {action action' : Eval Value} (h : twins.Step action action' twins.value) :
    twins.Step (Eval.truth action) (Eval.truth action') Any := by
  refine h.bind fun found _ => ?_
  cases found with
  | bool flag => exact pure trivial
  | _ => exact fail

theorem integer {action action' : Eval Value} (h : twins.Step action action' twins.value) :
    twins.Step (Eval.integer action) (Eval.integer action') Any := by
  refine h.bind fun found _ => ?_
  cases found with
  | int number => exact pure trivial
  | _ => exact fail

theorem andThen {first first' next next' : Eval Flow}
    (hfirst : twins.Step first first' (Flow.Holds twins.value))
    (hnext : twins.Step next next' (Flow.Holds twins.value)) :
    twins.Step (Eval.andThen first next) (Eval.andThen first' next')
      (Flow.Holds twins.value) := by
  refine hfirst.bind fun flow hflow => ?_
  cases flow with
  | normal => exact hnext
  | returned result => exact pure hflow

theorem choose {condition condition' : Eval Bool} {yes yes' no no' : Eval Flow}
    (hcondition : twins.Step condition condition' Any)
    (hyes : twins.Step yes yes' (Flow.Holds twins.value))
    (hno : twins.Step no no' (Flow.Holds twins.value)) :
    twins.Step (Eval.choose condition yes no) (Eval.choose condition' yes' no')
      (Flow.Holds twins.value) := by
  refine hcondition.bind fun flag _ => ?_
  cases flag with
  | true => exact hyes
  | false => exact hno

theorem repeatWhile {condition condition' : Eval Bool} {body body' : Eval Flow}
    (hcondition : twins.Step condition condition' Any)
    (hbody : twins.Step body body' (Flow.Holds twins.value)) (fuel : Nat) :
    twins.Step (Eval.repeatWhile condition body fuel) (Eval.repeatWhile condition' body' fuel)
      (Flow.Holds twins.value) := by
  induction fuel with
  | zero => exact throw
  | succ fuel ih => exact choose hcondition (andThen hbody ih) (pure trivial)

theorem countFrom {body body' : Int64 → Eval Flow}
    (hbody : ∀ number, twins.Step (body number) (body' number) (Flow.Holds twins.value))
    (count : Nat) (first : Int64) :
    twins.Step (Eval.countFrom body count first) (Eval.countFrom body' count first)
      (Flow.Holds twins.value) := by
  induction count generalizing first with
  | zero => exact pure trivial
  | succ count ih => exact andThen (hbody first) (ih (first + 1))

theorem apply {host host' : Host} {invoke invoke' : Invoke} (hnatives : twins.Natives host host')
    (hcalls : twins.Calls invoke invoke') {name : String} {callee : Value}
    {arguments : List Value} (hcallee : twins.value callee)
    (harguments : ∀ argument ∈ arguments, twins.value argument) :
    twins.Step (Eval.apply host invoke name callee arguments)
      (Eval.apply host' invoke' name callee arguments) twins.value := by
  cases callee with
  | builtin native => exact hnatives native arguments
  | function decl frame => exact hcalls decl frame arguments hcallee harguments
  | _ => exact fail

/-- Nothing is exchanged by an action that gives a result at once. -/
theorem interact_pure {result : α} (hgood : good result) :
    twins.Step (Eval.interact (Pure.pure result)) (Eval.interact (Pure.pure result)) good :=
  pure hgood

theorem interact_fail {fault : Fault} :
    twins.Step (Eval.interact (Interact.fail fault)) (Eval.interact (Interact.fail fault)) good :=
  fail

theorem interact_bind {first second : Interact α} {more others : α → Interact β}
    {after : β → Prop} (h : twins.Step (Eval.interact first) (Eval.interact second) good)
    (hmore : ∀ result, good result →
      twins.Step (Eval.interact (more result)) (Eval.interact (others result)) after) :
    twins.Step (Eval.interact (first >>= more)) (Eval.interact (second >>= others)) after := by
  rw [Eval.interact_bind, Eval.interact_bind]
  exact h.bind hmore

end Step

/-- What built-in functions exchange with their surroundings are texts and random draws. -/
theorem natives_of {host host' : Host}
    (hwrite : ∀ text, twins.Step (Eval.interact (Interact.write host text))
      (Eval.interact (Interact.write host' text)) Any)
    (hdraw : twins.Step (Eval.interact (Interact.draw host)) (Eval.interact (Interact.draw host'))
      Any) : twins.Natives host host' := by
  intro native arguments
  have hplain : ∀ {value : Value}, value.isPlain = true → twins.value value :=
    fun hplain => twins.hereditary.plain _ hplain
  unfold Builtin.run
  split
  · exact Step.interact_bind (hwrite _) fun _ _ => Step.interact_pure (hplain rfl)
  · exact Step.interact_pure (hplain rfl)
  · split
    · exact Step.interact_fail
    · exact Step.interact_bind hdraw fun _ _ => Step.interact_pure (hplain rfl)
  · split
    · exact Step.interact_fail
    · exact Step.interact_bind hdraw fun _ _ => Step.interact_pure (hplain rfl)
  · exact Step.interact_pure (hplain rfl)
  · exact Step.interact_pure (hplain rfl)
  · split
    · exact Step.interact_fail
    · refine Step.interact_pure ((twins.hereditary.array _).mpr fun item hmem => ?_)
      rw [List.eq_of_mem_replicate hmem]
      exact hplain rfl
  · split
    · exact Step.interact_pure (hplain rfl)
    · exact Step.interact_fail
  · exact Step.interact_pure (hplain rfl)
  · exact Step.interact_fail

/-! ### Frames -/

/-- Alone the first run can push a frame and pop it again. -/
theorem Alone.inFrame {first : Eval α} {parent : FrameId} {state : Machine} {halt : Halt}
    {console : Console}
    (h : twins.Alone good halt console
      (first { state with scope := state.scope.push parent none })) :
    twins.Alone good halt console (Eval.inFrame parent first state) := by
  rw [Eval.inFrame_eq]
  cases hfirst : first { state with scope := state.scope.push parent none } with
  | ok result inner =>
      rw [hfirst] at h
      cases hpop : inner.scope.pop with
      | ok outer => simpa only [Eval.popped_ok hpop, Alone] using h
      | error fault => simpa only [Eval.popped, hpop, Alone] using h.2
  | error reason inner =>
      rw [hfirst] at h
      cases hpop : inner.scope.pop with
      | ok outer => simpa only [Eval.popped_error hpop, Alone] using h
      | error fault => simpa only [Eval.popped, hpop, Alone] using h

/-- Runs that are abreast in the frames pushed for them are abreast again after the pops. -/
theorem meets_inFrame {abreast inside : Machine → Machine → Prop} {first second : Eval α}
    {parent parent' : FrameId} {state state' : Machine} (hpops : Eval.PopsOwnFrame second)
    (h : Eval.Meets inside good (first { state with scope := state.scope.push parent none })
      (second { state' with scope := state'.scope.push parent' none }))
    (hleave : ∀ inner inner' outer', inside inner inner' → inner'.scope.pop = .ok outer' →
      ∃ outer, inner.scope.pop = .ok outer ∧
        abreast { inner with scope := outer } { inner' with scope := outer' }) :
    Eval.Meets abreast good (Eval.inFrame parent first state)
      (Eval.inFrame parent' second state') := by
  have hpop := hpops state' parent'
  rw [Eval.inFrame_eq parent]
  generalize first { state with scope := state.scope.push parent none } = ending at h
  generalize second { state' with scope := state'.scope.push parent' none } = ending' at h hpop
  cases h with
  | ok hgood habreast =>
      obtain ⟨outer', houter', hends⟩ := hpop
      obtain ⟨outer, houter, hafter⟩ := hleave _ _ outer' habreast houter'.pop
      rw [Eval.popped_ok houter, hends]
      exact .ok hgood hafter
  | error habreast =>
      obtain ⟨outer', houter', hends⟩ := hpop
      obtain ⟨outer, houter, hafter⟩ := hleave _ _ outer' habreast houter'.pop
      rw [Eval.popped_error houter, hends]
      exact .error hafter

/-- The pop behind the second run succeeds, so that it does not hide why that run has stopped. -/
theorem Step.inFrame {first second : Eval α} {parent : FrameId} (h : twins.Step first second good)
    (hpops : Eval.PopsOwnFrame second)
    (henter : ∀ state state', twins.abreast state state' →
      twins.abreast { state with scope := state.scope.push parent none }
        { state' with scope := state'.scope.push parent none })
    (hleave : ∀ inner inner' outer', twins.abreast inner inner' →
      inner'.scope.pop = .ok outer' → ∃ outer, inner.scope.pop = .ok outer ∧
        twins.abreast { inner with scope := outer } { inner' with scope := outer' }) :
    twins.Step (Eval.inFrame parent first) (Eval.inFrame parent second) good where
  both state state' habreast := by
    rcases h.both _ _ (henter state state' habreast) with hmeets | ⟨halt, final, hsecond, halone⟩
    · exact .inl (meets_inFrame hpops hmeets hleave)
    · have hpop := hpops state' parent
      rw [hsecond] at hpop
      obtain ⟨outer, -, hends⟩ := hpop
      exact .inr ⟨halt, { final with scope := outer }, hends, halone.inFrame⟩
  alone state halt console hparted :=
    (h.alone { state with scope := state.scope.push parent none } halt console hparted).inFrame

end Twins

end Quill
