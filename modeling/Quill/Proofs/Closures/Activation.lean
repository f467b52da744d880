import Quill.Proofs.Chronicle
import Quill.Proofs.Closures.History

/-!
# Closures run in their own activation

The histories of runs make a chronicle, in which the functions that are known are those that were
declared.  So at every point of every run, of a program that was checked or not, each function
value goes back to a declaration in the history, and a call of it either runs the body in a new
frame on top of the one in which it was declared or, if that frame was popped since, does nothing
but fail.
-/

namespace Quill

/-- The machine stands at the last point of a history. -/
structure At (past : Past) (machine : Machine) : Prop where
  history : History past
  present : past.head? = some machine.scope

/-- The history behind the present scope. -/
theorem At.split {past : Past} {machine : Machine} (h : At past machine) :
    ∃ earlier, past = machine.scope :: earlier ∧ History (machine.scope :: earlier) := by
  obtain ⟨earlier, rfl⟩ := List.head?_eq_some_iff.1 h.present
  exact ⟨earlier, rfl, h.history⟩

/-- The moments of a run are its histories, and known are the functions that were declared. -/
def Chronicle.histories : Chronicle Past where
  later now next := ∃ more, next = more ++ now
  machine := At
  value past := Value.Functions (Declared past)
  refl now := ⟨[], rfl⟩
  trans := by
    rintro first _ _ ⟨more, rfl⟩ ⟨others, rfl⟩
    exact ⟨others ++ more, (List.append_assoc ..).symm⟩
  hereditary _ := Value.hereditary_functions
  known := by
    rintro now _ ⟨more, rfl⟩ found hfound
    exact hfound.append more
  get := by
    intro now state hat name found hfound
    obtain ⟨earlier, rfl, hhistory⟩ := hat.split
    exact hhistory.stored.get hfound
  bind := by
    intro now state hat id name stored hstored
    obtain ⟨earlier, rfl, hhistory⟩ := hat.split
    exact ⟨_, ⟨[_], rfl⟩, .bind id name hhistory hstored, rfl⟩
  declare := by
    intro now state hat decl
    obtain ⟨earlier, rfl, hhistory⟩ := hat.split
    exact ⟨_, ⟨[_], rfl⟩, .declare decl hhistory, rfl⟩
  push := by
    intro now state hat parent
    obtain ⟨earlier, rfl, hhistory⟩ := hat.split
    exact ⟨_, ⟨[_], rfl⟩, .push parent hhistory, rfl⟩
  pop := by
    intro now state hat outer hpop
    obtain ⟨earlier, rfl, hhistory⟩ := hat.split
    exact ⟨_, ⟨[_], rfl⟩, .pop hhistory hpop, rfl⟩
  exchange := by
    intro now state hat console
    exact ⟨hat.history, hat.present⟩

namespace Eval

open Chronicle (histories)

variable {host : Host} {invoke : Invoke} {fuel : Nat}

/-- The same ending with another result. -/
def mapResult {α β : Type} (f : α → β) :
    EStateM.Result Halt Machine α → EStateM.Result Halt Machine β
  | .ok result machine => .ok (f result) machine
  | .error halt machine => .error halt machine

/-- The rule by which calls of declared functions are made: in a new frame on top of the one in
which the function was declared, if that frame was on the stack all the time since; else the call
fails and changes nothing.  The body starts right behind the push of the new frame, which is popped
when the body has ended.  The calls inside the body are made by `invoke`. -/
structure OwnActivation (host : Host) (invoke : Invoke) (fuel : Nat) (called : Invoke) (past : Past)
    (machine : Machine) (decl : FnDecl Stmt) (frame : FrameHandle) (arguments : List Value) :
    Prop where
  arity : arguments.length ≠ decl.parameters.length →
    called decl frame arguments machine =
      .error (.fault (.arityMismatch decl.name decl.parameters.length arguments.length)) machine
  runs : arguments.length = decl.parameters.length → ∀ later birth,
    DeclaredIn past later birth decl frame → OnStackSince birth later →
    called decl frame arguments machine =
      mapResult Flow.result (popped (body host invoke fuel decl arguments
        { machine with scope := machine.scope.push birth.current none }))
  expires : arguments.length = decl.parameters.length → ∀ later birth,
    DeclaredIn past later birth decl frame → ¬ OnStackSince birth later →
    called decl frame arguments machine = .error (.fault (.frameExpired decl.name)) machine

/-- Calls are made by the rule. -/
theorem call_ownActivation {past : Past} {machine : Machine} (hat : At past machine)
    (decl : FnDecl Stmt) (frame : FrameHandle) (arguments : List Value) :
    OwnActivation host invoke fuel (call host invoke fuel) past machine decl frame arguments := by
  obtain ⟨earlier, rfl, hhistory⟩ := hat.split
  constructor
  · intro harity
    rw [call, if_pos harity]
    rfl
  · intro harity later birth hdeclared hon
    have hresolve := (hhistory.resolve_iff hdeclared birth.current).2 ⟨hon, rfl⟩
    have hframe : declaringFrame decl frame machine = .ok birth.current machine := by
      rw [declaringFrame, hresolve]
    rw [call, if_neg (not_not_intro harity)]
    change EStateM.bind _ _ machine = _
    rw [EStateM.bind, hframe, ← inFrame_eq]
    change EStateM.bind _ _ machine = _
    rw [EStateM.bind]
    cases inFrame birth.current (body host invoke fuel decl arguments) machine with
    | ok flow final => rfl
    | error halt final => rfl
  · intro harity later birth hdeclared hgone
    have hresolve : machine.scope.resolve frame = none := by
      rw [Option.eq_none_iff_forall_ne_some]
      intro id hid
      exact hgone ((hhistory.resolve_iff hdeclared id).1 hid).1
    have hframe : declaringFrame decl frame machine =
        .error (.fault (.frameExpired decl.name)) machine := by
      rw [declaringFrame, hresolve]
    rw [call, if_neg (not_not_intro harity)]
    change EStateM.bind _ _ machine = _
    rw [EStateM.bind, hframe]

/-- The rule leaves no choice. -/
theorem OwnActivation.unique {called other : Invoke} {past : Past} {machine : Machine}
    {decl : FnDecl Stmt} {frame : FrameHandle} {arguments : List Value}
    (h : OwnActivation host invoke fuel called past machine decl frame arguments)
    (h' : OwnActivation host invoke fuel other past machine decl frame arguments)
    (hdeclared : Declared past decl frame) :
    called decl frame arguments machine = other decl frame arguments machine := by
  obtain ⟨later, birth, hin⟩ := hdeclared
  by_cases harity : arguments.length = decl.parameters.length
  · by_cases hon : OnStackSince birth later
    · rw [h.runs harity later birth hin hon, h'.runs harity later birth hin hon]
    · rw [h.expires harity later birth hin hon, h'.expires harity later birth hin hon]
  · rw [h.arity harity, h'.arity harity]

/-- Calls that are made by the rule, with fewer and fewer calls inside each other. -/
structure ByTheRule (host : Host) (calls : Nat → Invoke) : Prop where
  last : calls 0 = callWithin host 0
  rule : ∀ fuel past machine, At past machine → ∀ decl frame arguments,
    Declared past decl frame → histories.values past arguments →
    OwnActivation host (calls fuel) fuel (calls (fuel + 1)) past machine decl frame arguments

/-- Calls that are made by the rule are alike to those of a run. -/
theorem ByTheRule.callsAlike {calls : Nat → Invoke} (h : ByTheRule host calls) (fuel : Nat) :
    histories.CallsAlike (callWithin host fuel) (calls fuel) := by
  induction fuel with
  | zero =>
      rw [h.last]
      intro now decl frame arguments _ _
      exact ⟨fun _ _ => rfl, fun _ hstate => ⟨now, ⟨[], rfl⟩, hstate⟩⟩
  | succ fuel ih =>
      have hcalls : histories.CallsAlike (call host (callWithin host fuel) fuel)
          (call host (calls fuel) fuel) :=
        Chronicle.callsAlike_call ih (governs_callWithin host fuel) fuel
      intro now decl frame arguments hdecl harguments
      have hcall := hcalls now decl frame arguments hdecl harguments
      constructor
      · intro state hstate
        rw [callWithin, hcall.same state hstate]
        exact (call_ownActivation hstate decl frame arguments).unique
          (h.rule fuel now state hstate decl frame arguments hdecl harguments) hdecl
      · exact hcall.leads

/-- The calls of a run are made by the rule. -/
theorem callWithin_byTheRule (host : Host) : ByTheRule host (callWithin host) where
  last := rfl
  rule := fun _ _ _ hat decl frame arguments _ _ => call_ownActivation hat decl frame arguments

/-- Every part of a run that begins at a point of a history leads on in it, and its result is made
of functions that were declared. -/
structure LeadsOnFrom (host : Host) (past : Past) (machine : Machine) : Prop where
  evaluate : ∀ depth expr,
    histories.LeadsOn past histories.value (evaluate host (callWithin host depth) expr machine)
  stmt : ∀ depth fuel statement,
    histories.LeadsOn past histories.flow (stmt host (callWithin host depth) fuel statement machine)
  call : ∀ depth decl frame arguments, Declared past decl frame →
    histories.values past arguments →
    histories.LeadsOn past histories.value (callWithin host depth decl frame arguments machine)

/-- At every point of a run its parts lead on. -/
theorem leadsOnFrom {past : Past} {machine : Machine} (hat : At past machine) :
    LeadsOnFrom host past machine := by
  have hcalls : ∀ depth, histories.CallsAlike (callWithin host depth) (callWithin host depth) :=
    (callWithin_byTheRule host).callsAlike
  constructor
  · intro depth expr
    exact (Chronicle.alike_locate (hcalls depth) expr past).value.leads machine hat
  · intro depth fuel statement
    exact (Chronicle.alike_stmt (hcalls depth) fuel statement past).leads machine hat
  · intro depth decl frame arguments hdeclared harguments
    exact (hcalls depth past decl frame arguments hdeclared harguments).leads machine hat

/-- Closures run in their own activation, in every run of every program.  At each point of a run all
stored functions were declared in its history, and the handle of such a function resolves just if
the frame in which it was declared is still on the stack, and then to that frame.  All parts of a
run lead from such points to such points.  So the calls of the run are made by the rule that looks
at the history alone: whoever makes calls by that rule runs the program in the same way. -/
theorem closures_run_in_own_activation (host : Host) (fuel : Nat) (program : List Stmt) :
    (∀ past machine, At past machine →
      machine.scope.All (Value.Functions (Declared past)) ∧ LeadsOnFrom host past machine ∧
      ∀ later birth decl frame, DeclaredIn past later birth decl frame → ∀ id,
        machine.scope.resolve frame = some id ↔ OnStackSince birth later ∧ id = birth.current) ∧
    histories.LeadsOn [Machine.start.scope] Chronicle.Any (Eval.program host fuel program .start) ∧
    ByTheRule host (callWithin host) ∧
    ∀ calls, ByTheRule host calls →
      programVia host (calls fuel) fuel program .start = Eval.program host fuel program .start := by
  have hstart : At [Machine.start.scope] .start := ⟨.start, rfl⟩
  have hrun : ∀ calls, ByTheRule host calls → histories.Alike [Machine.start.scope]
      (Eval.program host fuel program) (programVia host (calls fuel) fuel program) Chronicle.Any :=
    fun calls hcalls => Chronicle.alike_programVia (hcalls.callsAlike fuel) fuel program _
  refine ⟨?_, ?_, callWithin_byTheRule host, ?_⟩
  · intro past machine hat
    obtain ⟨earlier, rfl, hhistory⟩ := hat.split
    exact ⟨hhistory.stored, leadsOnFrom hat, fun later birth decl frame hdeclared id =>
      hhistory.resolve_iff hdeclared id⟩
  · exact (hrun _ (callWithin_byTheRule host)).leads .start hstart
  · intro calls hcalls
    exact ((hrun calls hcalls).same .start hstart).symm

end Eval

end Quill
