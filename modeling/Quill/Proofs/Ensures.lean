import Quill.Eval

/-!
# What an action ensures

Every statement about runs is put in one form: from each machine with some property, an action ends
in a result and a machine that fit together, or stops with a reason and a machine that do.  Both
endings are described, because a run that stops still leaves a machine behind.  This module gives
the rules by which such statements about the parts of an action make one about the whole: one rule
for each way in which the evaluator puts actions together.
-/

namespace Quill

namespace Eval

/-- From every machine with `before`, the action ends with `after` or stops with `stop`. -/
def Ensures {α : Type} (before : Machine → Prop) (action : Eval α)
    (after : α → Machine → Prop) (stop : Halt → Machine → Prop) : Prop :=
  ∀ machine, before machine →
    match action machine with
    | .ok value final => after value final
    | .error halt final => stop halt final

namespace Ensures

variable {α β : Type} {before before' : Machine → Prop} {after after' : α → Machine → Prop}
  {stop stop' : Halt → Machine → Prop}

/-- What is ensured from more machines, and says more about the ending, says enough. -/
theorem weaken {action : Eval α} (h : Ensures before action after stop)
    (hbefore : ∀ machine, before' machine → before machine)
    (hafter : ∀ value machine, after value machine → after' value machine)
    (hstop : ∀ halt machine, stop halt machine → stop' halt machine) :
    Ensures before' action after' stop' := by
  intro machine hm
  have hrun := h machine (hbefore machine hm)
  cases hact : action machine with
  | ok value final =>
      rw [hact] at hrun
      exact hafter value final hrun
  | error halt final =>
      rw [hact] at hrun
      exact hstop halt final hrun

/-- A weaker description of results. -/
theorem imp {action : Eval α} (h : Ensures before action after stop)
    (hafter : ∀ value machine, after value machine → after' value machine) :
    Ensures before action after' stop :=
  h.weaken (fun _ hm => hm) hafter (fun _ _ hs => hs)

/-- A stronger demand on machines. -/
theorem assuming {action : Eval α} (h : Ensures before action after stop)
    (hbefore : ∀ machine, before' machine → before machine) :
    Ensures before' action after stop :=
  h.weaken hbefore (fun _ _ ha => ha) (fun _ _ hs => hs)

/-- Two statements about one action, together. -/
theorem and {action : Eval α} (h : Ensures before action after stop)
    (h' : Ensures before' action after' stop') :
    Ensures (fun machine => before machine ∧ before' machine) action
      (fun value machine => after value machine ∧ after' value machine)
      (fun halt machine => stop halt machine ∧ stop' halt machine) := by
  intro machine hm
  have hfirst := h machine hm.1
  have hsecond := h' machine hm.2
  cases hact : action machine with
  | ok value final =>
      rw [hact] at hfirst hsecond
      exact ⟨hfirst, hsecond⟩
  | error halt final =>
      rw [hact] at hfirst hsecond
      exact ⟨hfirst, hsecond⟩

theorem pure {value : α} (h : ∀ machine, before machine → after value machine) :
    Ensures before (Pure.pure value) after stop :=
  fun machine hm => h machine hm

theorem bind {action : Eval α} {next : α → Eval β} {mid : α → Machine → Prop}
    {after : β → Machine → Prop} (hfirst : Ensures before action mid stop)
    (hnext : ∀ value, Ensures (mid value) (next value) after stop) :
    Ensures before (action >>= next) after stop := by
  intro machine hm
  have hrun := hfirst machine hm
  show match EStateM.bind action next machine with
    | .ok value final => after value final
    | .error halt final => stop halt final
  unfold EStateM.bind
  cases hact : action machine with
  | ok value final =>
      rw [hact] at hrun
      exact hnext value final hrun
  | error halt final =>
      rw [hact] at hrun
      exact hrun

theorem fail {fault : Fault} (h : ∀ machine, before machine → stop (.fault fault) machine) :
    Ensures before (Eval.fail fault) after stop :=
  fun machine hm => h machine hm

theorem throw {halt : Halt} (h : ∀ machine, before machine → stop halt machine) :
    Ensures before (MonadExcept.throw halt : Eval α) after stop :=
  fun machine hm => h machine hm

theorem change {f : Machine → Machine} {after : Unit → Machine → Prop}
    (h : ∀ machine, before machine → after () (f machine)) :
    Ensures before (Eval.change f) after stop :=
  fun machine hm => h machine hm

theorem ofExcept {result : Except Fault α}
    (hok : ∀ value machine, result = .ok value → before machine → after value machine)
    (herror : ∀ fault machine, result = .error fault → before machine →
      stop (.fault fault) machine) :
    Ensures before (Eval.ofExcept result) after stop := by
  cases result with
  | ok value => exact pure fun machine hm => hok value machine rfl hm
  | error fault => exact fail fun machine hm => herror fault machine rfl hm

theorem lookup {name : String} {after : Option Value → Machine → Prop}
    (h : ∀ machine, before machine → after (machine.scope.get? name) machine) :
    Ensures before (Eval.lookup name) after stop :=
  fun machine hm => h machine hm

theorem read {location : Location} {after : Value → Machine → Prop}
    (hok : ∀ value machine, location.read machine.scope = .ok value → before machine →
      after value machine)
    (herror : ∀ fault machine, location.read machine.scope = .error fault → before machine →
      stop (.fault fault) machine) :
    Ensures before (Eval.read location) after stop := by
  intro machine hm
  unfold Eval.read
  cases hread : location.read machine.scope with
  | ok value => exact hok value machine hread hm
  | error fault => exact herror fault machine hread hm

theorem write {location : Location} {value : Value} {after : Unit → Machine → Prop}
    (hok : ∀ scope machine, location.write machine.scope value = .ok scope → before machine →
      after () { machine with scope := scope })
    (herror : ∀ fault machine, location.write machine.scope value = .error fault →
      before machine → stop (.fault fault) machine) :
    Ensures before (Eval.write location value) after stop := by
  intro machine hm
  unfold Eval.write
  cases hwrite : location.write machine.scope value with
  | ok scope => exact hok scope machine hwrite hm
  | error fault => exact herror fault machine hwrite hm

theorem interact {action : Interact α}
    (hok : ∀ machine value console, action machine.console = .ok value console →
      before machine → after value { machine with console := console })
    (herror : ∀ machine fault console, action machine.console = .error fault console →
      before machine → stop (.fault fault) { machine with console := console }) :
    Ensures before (Eval.interact action) after stop := by
  intro machine hm
  unfold Eval.interact
  cases hact : action machine.console with
  | ok value console => exact hok machine value console hact hm
  | error fault console => exact herror machine fault console hact hm

/-! ### Putting actions together -/

theorem truth {action : Eval Value} {mid : Value → Machine → Prop}
    {after : Bool → Machine → Prop} (haction : Ensures before action mid stop)
    (hbool : ∀ flag machine, mid (.bool flag) machine → after flag machine)
    (hother : ∀ value machine, mid value machine → (∀ flag, value ≠ .bool flag) →
      stop (.fault (.uncheckedProgram ("a " ++ value.typeName ++ " condition"))) machine) :
    Ensures before (Eval.truth action) after stop := by
  refine haction.bind fun found => ?_
  cases found with
  | bool flag => exact pure (hbool flag)
  | _ => exact fail fun machine hm => hother _ machine hm (by simp)

theorem integer {action : Eval Value} {mid : Value → Machine → Prop}
    {after : Int64 → Machine → Prop} (haction : Ensures before action mid stop)
    (hint : ∀ number machine, mid (.int number) machine → after number machine)
    (hother : ∀ value machine, mid value machine → (∀ number, value ≠ .int number) →
      stop (.fault (.uncheckedProgram
        ("a " ++ value.typeName ++ " where an int was required"))) machine) :
    Ensures before (Eval.integer action) after stop := by
  refine haction.bind fun found => ?_
  cases found with
  | int number => exact pure (hint number)
  | _ => exact fail fun machine hm => hother _ machine hm (by simp)

theorem andThen {first next : Eval Flow} {mid after : Flow → Machine → Prop}
    (hfirst : Ensures before first mid stop)
    (hnext : Ensures (mid .normal) next after stop)
    (hreturned : ∀ value machine, mid (.returned value) machine →
      after (.returned value) machine) :
    Ensures before (Eval.andThen first next) after stop := by
  refine hfirst.bind fun flow => ?_
  cases flow with
  | normal => exact hnext
  | returned value => exact pure (hreturned value)

theorem choose {condition : Eval Bool} {yes no : Eval Flow} {mid : Machine → Prop}
    {after : Flow → Machine → Prop}
    (hcondition : Ensures before condition (fun _ => mid) stop)
    (hyes : Ensures mid yes after stop) (hno : Ensures mid no after stop) :
    Ensures before (Eval.choose condition yes no) after stop := by
  refine hcondition.bind fun flag => ?_
  cases flag with
  | true => exact hyes
  | false => exact hno

/-- A loop with a condition keeps what its condition and its body keep. -/
theorem repeatWhile {condition : Eval Bool} {body : Eval Flow}
    {after : Flow → Machine → Prop}
    (hcondition : Ensures before condition (fun _ => before) stop)
    (hbody : Ensures before body after stop)
    (hround : ∀ machine, after .normal machine → before machine)
    (hdone : ∀ machine, before machine → after .normal machine)
    (hfuel : ∀ machine, before machine → stop .outOfFuel machine) (fuel : Nat) :
    Ensures before (Eval.repeatWhile condition body fuel) after stop := by
  -- By induction on the rounds that are left; `before` is the invariant.
  induction fuel with
  | zero => exact fun machine hm => hfuel machine hm
  | succ fuel ih =>
      refine choose hcondition ?_ (pure hdone)
      exact andThen hbody (ih.assuming hround) fun _ _ h => h

/-- A loop that counts keeps what each of its rounds keeps. -/
theorem countFrom {body : Int64 → Eval Flow} {after : Flow → Machine → Prop}
    (hbody : ∀ number, Ensures before (body number) after stop)
    (hround : ∀ machine, after .normal machine → before machine)
    (hdone : ∀ machine, before machine → after .normal machine) (count : Nat) (first : Int64) :
    Ensures before (Eval.countFrom body count first) after stop := by
  induction count generalizing first with
  | zero => exact pure hdone
  | succ count ih =>
      exact andThen (hbody first) ((ih (first + 1)).assuming hround) fun _ _ h => h

/-! ### Calls -/

theorem declaringFrame {decl : FnDecl Stmt} {frame : FrameHandle}
    {after : FrameId → Machine → Prop}
    (hfound : ∀ machine id, before machine → machine.scope.resolve frame = some id →
      after id machine)
    (hgone : ∀ machine, before machine → machine.scope.resolve frame = none →
      stop (.fault (.frameExpired decl.name)) machine) :
    Ensures before (Eval.declaringFrame decl frame) after stop := by
  intro machine hm
  unfold Eval.declaringFrame
  cases hresolve : machine.scope.resolve frame with
  | some id => exact hfound machine id hm hresolve
  | none => exact hgone machine hm hresolve

/-- An action in a frame of its own: what it ensures of the machine is read after the pop. -/
theorem inFrame {parent : FrameId} {action : Eval α}
    (h : ∀ machine, before machine →
      Ensures (· = { machine with scope := machine.scope.push parent none }) action
        (fun value inner => ∃ outer, inner.scope.pop = .ok outer ∧
          after value { inner with scope := outer })
        (fun halt inner => ∃ outer, inner.scope.pop = .ok outer ∧
          stop halt { inner with scope := outer })) :
    Ensures before (Eval.inFrame parent action) after stop := by
  intro machine hm
  have hrun := h machine hm _ rfl
  rw [Eval.inFrame_eq]
  cases hact : action { machine with scope := machine.scope.push parent none } with
  | ok value inner =>
      rw [hact] at hrun
      obtain ⟨outer, hpop, hafter⟩ := hrun
      rw [Eval.popped_ok hpop]
      exact hafter
  | error halt inner =>
      rw [hact] at hrun
      obtain ⟨outer, hpop, hstop⟩ := hrun
      rw [Eval.popped_error hpop]
      exact hstop

/-- A call, given what the body of the function ensures in the frame pushed for it. -/
theorem call {host : Host} {invoke : Invoke} {fuel : Nat} {decl : FnDecl Stmt}
    {frame : FrameHandle} {arguments : List Value} {after : Value → Machine → Prop}
    (harity : ∀ machine, before machine → arguments.length ≠ decl.parameters.length →
      stop (.fault (.arityMismatch decl.name decl.parameters.length arguments.length)) machine)
    (hgone : ∀ machine, before machine → machine.scope.resolve frame = none →
      stop (.fault (.frameExpired decl.name)) machine)
    (hbody : ∀ machine parent, before machine → arguments.length = decl.parameters.length →
      machine.scope.resolve frame = some parent →
      Ensures (· = { machine with scope := machine.scope.push parent none })
        (Eval.body host invoke fuel decl arguments)
        (fun flow inner => ∃ outer, inner.scope.pop = .ok outer ∧
          after (Flow.result flow) { inner with scope := outer })
        (fun halt inner => ∃ outer, inner.scope.pop = .ok outer ∧
          stop halt { inner with scope := outer })) :
    Ensures before (Eval.call host invoke fuel decl frame arguments) after stop := by
  unfold Eval.call
  by_cases hlength : arguments.length = decl.parameters.length
  · rw [if_neg (not_not_intro hlength)]
    -- The frame of the declaration is looked for before the new one is pushed.
    have hframe : Ensures before (Eval.declaringFrame decl frame)
        (fun parent machine => before machine ∧ machine.scope.resolve frame = some parent) stop :=
      declaringFrame (fun _ _ hm hid => ⟨hm, hid⟩) hgone
    refine hframe.bind fun parent => ?_
    exact (inFrame fun machine hm => hbody machine parent hm.1 hlength hm.2).bind fun _ =>
      pure fun _ hm => hm
  · rw [if_pos hlength]
    exact fail fun machine hm => harity machine hm hlength

/-! ### Whole programs -/

theorem topLevel {host : Host} {invoke : Invoke} {fuel : Nat} {program : List Stmt}
    (hstmt : ∀ stmt ∈ program, stmt.decl? = none →
      Ensures before (Eval.stmt host invoke fuel stmt)
        (fun flow machine => before machine ∧ ∀ value, flow = .returned value →
          stop (.fault .returnOutsideFunction) machine) stop) :
    Ensures before (Eval.topLevel host invoke fuel program) (fun _ => before) stop := by
  induction program with
  | nil => exact pure fun _ hm => hm
  | cons stmt others ih =>
      have hothers := ih fun other hmem => hstmt other (List.mem_cons_of_mem _ hmem)
      have hfirst := hstmt stmt List.mem_cons_self
      cases stmt with
      | function decl => exact hothers
      | _ =>
          refine (hfirst rfl).bind fun flow => ?_
          cases flow with
          | normal => exact hothers.assuming fun _ hm => hm.1
          | returned value => exact fail fun _ hm => hm.2 value rfl

theorem callMain {invoke : Invoke} (hmissing : ∀ machine, before machine → stop .noMain machine)
    (hcall : ∀ decl frame, decl.parameters = [] →
      Ensures (fun machine => before machine ∧
          machine.scope.get? "main" = some (.function decl frame))
        (invoke decl frame []) (fun _ => before) stop) :
    Ensures before (Eval.callMain invoke) (fun _ => before) stop := by
  have hlookup : Ensures before (Eval.lookup "main")
      (fun found machine => before machine ∧ machine.scope.get? "main" = found) stop :=
    lookup fun _ hm => ⟨hm, rfl⟩
  refine hlookup.bind fun found => ?_
  split
  · next decl frame =>
    by_cases hparameters : decl.parameters = []
    · simp only [hparameters, List.isEmpty_nil, if_true]
      exact (hcall decl frame hparameters).bind fun _ => pure fun _ hm => hm
    · have hfalse : decl.parameters.isEmpty = false := by simpa using hparameters
      simp only [hfalse, Bool.false_eq_true, if_false]
      exact throw fun machine hm => hmissing machine hm.1
  · exact throw fun machine hm => hmissing machine hm.1

theorem flush {host : Host}
    (h : ∀ reason machine, before machine → stop (.fault (.outputFailed reason)) machine) :
    Ensures before (Eval.flush host) (fun _ => before) stop := by
  unfold Eval.flush
  cases host.flushFailure with
  | some reason => exact fail (h reason)
  | none => exact pure fun _ hm => hm

/-- A whole program, given what its statements and its call of `main` ensure. -/
theorem programVia {host : Host} {invoke : Invoke} {fuel : Nat} {program : List Stmt}
    {mid : Machine → Prop}
    (hdeclare : ∀ machine, before machine → mid (Eval.declareFunctions program machine))
    (hstmts : Ensures mid (Eval.topLevel host invoke fuel program) (fun _ => mid) stop)
    (hmain : Ensures mid (Eval.callMain invoke) (fun _ => mid) stop)
    (hflush : ∀ reason machine, mid machine → stop (.fault (.outputFailed reason)) machine) :
    Ensures before (Eval.programVia host invoke fuel program) (fun _ => mid) stop := by
  have hstart : Ensures before (Eval.change (Eval.declareFunctions program)) (fun _ => mid) stop :=
    change hdeclare
  exact hstart.bind fun _ => hstmts.bind fun _ => hmain.bind fun _ => flush hflush

end Ensures

end Eval

end Quill
