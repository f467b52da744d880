import Quill.Proofs.Contents
import Quill.Proofs.Twins.Walk
import Quill.Proofs.Typing.State

/-!
# Functions do not see their callers

A function that was declared at the top runs in a frame over the global one.  Whatever other frames
are on the stack, it can neither read nor change them, as long as all functions that it can get hold
of were declared at the top as well: those in the global frame, and those among its arguments.

Two calls of one function, from stacks that have nothing in common but the global frame, are twins.
Each of them keeps the frames of its own stack, and a call inside of them pushes on both sides, so
the frames below are a parameter of `Twins.overGlobals`.
-/

namespace Quill

/-- No function is declared inside the body. -/
def FnDecl.IsFlat (decl : FnDecl Stmt) : Prop :=
  ∀ part ∈ Stmt.partsOfBlock decl.body, part.decl? = none

/-- All functions in the value were declared at the top, and no others inside of them. -/
def Value.FromTop : Value → Prop :=
  Value.Functions fun decl frame => frame = .top ∧ decl.IsFlat

/-- The console after some more texts and random draws. -/
def Console.after (console : Console) (texts : Array String) (draws : Nat) : Console where
  written := console.written ++ texts
  drawn := console.drawn + draws

/-- A text is accepted or refused after those before it. -/
theorem Interact.write_after (host : Host) (console : Console) (texts : Array String) (draws : Nat)
    (text : String) :
    Interact.write host text (console.after texts draws) =
      if text.isEmpty then
        .ok () (console.after texts draws)
      else
        match host.refusal (console.written ++ texts) text with
        | some reason => .error (.outputFailed reason) (console.after texts draws)
        | none => .ok () (console.after (texts.push text) draws) := by
  unfold Interact.write Console.after
  by_cases hempty : text.isEmpty = true
  · rw [if_pos hempty, if_pos hempty]
  · rw [if_neg hempty, if_neg hempty]
    cases host.refusal (console.written ++ texts) text with
    | some reason => rfl
    | none => simp only [Array.push_append]

theorem Interact.draw_after (host : Host) (console : Console) (texts : Array String)
    (draws : Nat) :
    Interact.draw host (console.after texts draws) =
      .ok (host.draw (console.drawn + draws)) (console.after texts (draws + 1)) := rfl

/-- From these consoles on the hosts make the same random draws, and refuse the same texts. -/
structure Host.Alike (host host' : Host) (console console' : Console) : Prop where
  draw : ∀ draws, host.draw (console.drawn + draws) = host'.draw (console'.drawn + draws)
  refusal : ∀ texts text, host.refusal (console.written ++ texts) text =
    host'.refusal (console'.written ++ texts) text

/-- All values that the bindings hold have functions from the top only. -/
def Bindings.FromTop (bindings : Bindings Value) : Prop :=
  ∀ (name : String) value, bindings[name]? = some value → value.FromTop

theorem Bindings.FromTop.insert {bindings : Bindings Value} (h : bindings.FromTop) {name : String}
    {value : Value} (hvalue : value.FromTop) :
    Bindings.FromTop (Std.ExtTreeMap.insert bindings name value) := by
  intro other found hfound
  rcases Scope.getElem?_insert_some hfound with rfl | hold
  · exact hvalue
  · exact h other found hold

/-- The machines have the given frames and share the global one, which holds functions from the top
only.  Since the consoles `origin` and `origin'` they have exchanged the same. -/
inductive Machine.Share (frames frames' : Array (Frame Value)) (origin origin' : Console) :
    Machine → Machine → Prop where
  | intro {globals : Bindings Value} {pushed pushed' : Nat} {texts : Array String} {draws : Nat}
      (hglobals : globals.FromTop) :
      Share frames frames' origin origin' ⟨⟨globals, frames, pushed⟩, origin.after texts draws⟩
        ⟨⟨globals, frames', pushed'⟩, origin'.after texts draws⟩

theorem Machine.Share.of_globals {machine machine' : Machine}
    (hglobals : machine'.scope.globals = machine.scope.globals)
    (hfunctions : machine.scope.globals.FromTop) :
    Machine.Share machine.scope.frames machine'.scope.frames machine.console machine'.console
      machine machine' := by
  obtain ⟨⟨globals, frames, pushed⟩, console⟩ := machine
  obtain ⟨⟨_, frames', pushed'⟩, console'⟩ := machine'
  cases hglobals
  have hshare : Machine.Share frames frames' console console'
      ⟨⟨globals, frames, pushed⟩, console.after #[] 0⟩
      ⟨⟨globals, frames', pushed'⟩, console'.after #[] 0⟩ := .intro hfunctions
  simpa only [Console.after, Array.append_empty, Nat.add_zero] using hshare

/-- The machines share the global frame, and each has on top of its own frames one over the global
frame.  These two bind the same. -/
inductive Machine.Within (below below' : Array (Frame Value)) (origin origin' : Console) :
    Machine → Machine → Prop where
  | intro {globals locals : Bindings Value} {serial serial' pushed pushed' : Nat}
      {texts : Array String} {draws : Nat} (hglobals : globals.FromTop) (hlocals : locals.FromTop) :
      Within below below' origin origin'
        ⟨⟨globals, below.push ⟨locals, none, Scope.global, serial⟩, pushed⟩,
          origin.after texts draws⟩
        ⟨⟨globals, below'.push ⟨locals, none, Scope.global, serial'⟩, pushed'⟩,
          origin'.after texts draws⟩

/-- The bodies of one function from the top, called from two stacks. -/
def Twins.overGlobals (below below' : Array (Frame Value)) (origin origin' : Console) : Twins where
  abreast := Machine.Within below below' origin origin'
  parted _ _ _ := False
  value := Value.FromTop
  function _ := False
  hereditary := Value.hereditary_functions
  free hparted := hparted.elim
  get := by
    rintro _ _ ⟨hglobals, hlocals⟩ name
    simp only [Scope.get?_overGlobals]
  known := by
    rintro _ _ ⟨hglobals, hlocals⟩ name found hfound
    simp only [Scope.get?_overGlobals] at hfound
    rcases Option.or_eq_some_iff.mp hfound with hlocal | ⟨-, hglobal⟩
    · exact hlocals name found hlocal
    · exact hglobals name found hglobal
  update := by
    rintro _ _ (@⟨globals, locals, serial, serial', pushed, pushed', texts, draws, hglobals,
      hlocals⟩) name stored scope hstored hupdate
    rw [Scope.update?_overGlobals rfl] at hupdate ⊢
    by_cases hlocal : name ∈ locals
    · rw [if_pos hlocal] at hupdate ⊢
      cases hupdate
      exact ⟨_, rfl, .intro hglobals (hlocals.insert hstored)⟩
    · rw [if_neg hlocal] at hupdate ⊢
      by_cases hglobal : name ∈ globals
      · rw [if_pos hglobal] at hupdate ⊢
        cases hupdate
        exact ⟨_, rfl, .intro (hglobals.insert hstored) hlocals⟩
      · rw [if_neg hglobal] at hupdate
        cases hupdate
  insert := by
    rintro _ _ ⟨hglobals, hlocals⟩ name stored hstored
    simp only [Machine.insert, Scope.insert_push]
    exact .intro hglobals (hlocals.insert hstored)
  declare _ _ hfunction := hfunction.elim

namespace Twins

variable {below below' frames frames' : Array (Frame Value)} {origin origin' : Console}
  {host host' : Host} {machine machine' : Machine}

/-- Texts and random draws are the same on both sides. -/
theorem natives_overGlobals (hhosts : host.Alike host' origin origin') :
    (overGlobals below below' origin origin').Natives host host' := by
  refine natives_of (fun text => ⟨?_, fun _ _ _ hparted => hparted.elim⟩)
    ⟨?_, fun _ _ _ hparted => hparted.elim⟩
  · rintro _ _ (@⟨globals, locals, serial, serial', pushed, pushed', texts, draws, hglobals,
      hlocals⟩)
    simp only [Eval.interact, Interact.write_after, hhosts.refusal]
    by_cases hempty : text.isEmpty = true
    · simp only [if_pos hempty]
      exact .inl (.ok trivial (Machine.Within.intro hglobals hlocals))
    · simp only [if_neg hempty]
      cases host'.refusal (origin'.written ++ texts) text with
      | some reason => exact .inl (.error (Machine.Within.intro hglobals hlocals))
      | none => exact .inl (.ok trivial (Machine.Within.intro hglobals hlocals))
  · rintro _ _ ⟨hglobals, hlocals⟩
    simp only [Eval.interact, Interact.draw_after, hhosts.draw]
    exact .inl (.ok trivial (Machine.Within.intro hglobals hlocals))

/-- Functions from the top, called from any two stacks over one global frame, do the same, and leave
both stacks as they were. -/
def CallsBlindly (origin origin' : Console) (invoke invoke' : Invoke) : Prop :=
  ∀ (frames frames' : Array (Frame Value)) (machine machine' : Machine) (decl : FnDecl Stmt)
    (arguments : List Value), Machine.Share frames frames' origin origin' machine machine' →
    decl.IsFlat → (∀ argument ∈ arguments, argument.FromTop) →
    Eval.Meets (Machine.Share frames frames' origin origin') Value.FromTop
      (invoke decl .top arguments machine) (invoke' decl .top arguments machine')

variable {invoke invoke' : Invoke}

/-- Inside a body such calls keep the frame of the body, too. -/
theorem CallsBlindly.calls (h : CallsBlindly origin origin' invoke invoke') :
    (overGlobals below below' origin origin').Calls invoke invoke' := by
  rintro decl frame arguments ⟨rfl, hflat⟩ harguments
  refine ⟨?_, fun _ _ _ hparted => hparted.elim⟩
  rintro _ _ (@⟨globals, locals, serial, serial', pushed, pushed', texts, draws, hglobals,
    hlocals⟩)
  refine .inl ((h _ _ _ _ decl arguments (.intro hglobals) hflat harguments).imp ?_)
  rintro _ _ ⟨hafter⟩
  exact .intro hafter hlocals

/-- The body of a flat function declares nothing. -/
theorem admits_of_isFlat {decl : FnDecl Stmt} (hflat : decl.IsFlat) :
    ∀ part ∈ Stmt.partsOfBlock decl.body,
      (overGlobals below below' origin origin').Admits part := by
  rintro part hpart inner rfl
  exact absurd (hflat _ hpart) (by simp [Stmt.decl?])

/-- A body, run in frames pushed for it on both sides. -/
theorem meets_body (hhosts : host.Alike host' origin origin')
    (hinvoke : CallsBlindly origin origin' invoke invoke')
    (hframes : ∀ scope, (Discipline.frames scope).Governs invoke') (fuel : Nat)
    {decl : FnDecl Stmt} (hflat : decl.IsFlat) {arguments : List Value}
    (harguments : ∀ argument ∈ arguments, argument.FromTop)
    (hshare : Machine.Share frames frames' origin origin' machine machine') :
    Eval.Meets (Machine.Share frames frames' origin origin') (Flow.Holds Value.FromTop)
      (Eval.inFrame Scope.global (Eval.body host invoke fuel decl arguments) machine)
      (Eval.inFrame Scope.global (Eval.body host' invoke' fuel decl arguments) machine') := by
  have hbody : (overGlobals frames frames' origin origin').Step
      (Eval.body host invoke fuel decl arguments) (Eval.body host' invoke' fuel decl arguments)
      (Flow.Holds Value.FromTop) :=
    step_body (natives_overGlobals hhosts) hinvoke.calls fuel harguments (admits_of_isFlat hflat)
  -- The pushed frames bind nothing yet, and so they bind the same.
  have hpushed : (overGlobals frames frames' origin origin').abreast
      { machine with scope := machine.scope.push Scope.global none }
      { machine' with scope := machine'.scope.push Scope.global none } := by
    obtain ⟨hglobals⟩ := hshare
    exact .intro hglobals fun name value hvalue => by simp at hvalue
  have hmeets := (hbody.both _ _ hpushed).meets fun _ _ _ hparted => hparted.elim
  refine meets_inFrame (Eval.body_popsOwnFrame host' hframes fuel decl arguments) hmeets ?_
  rintro _ _ outer' ⟨hglobals, hlocals⟩ hpop
  rw [Scope.pop_of_frames rfl] at hpop ⊢
  cases hpop
  exact ⟨_, rfl, .intro hglobals⟩

theorem CallsBlindly.call (hhosts : host.Alike host' origin origin')
    (hinvoke : CallsBlindly origin origin' invoke invoke')
    (hframes : ∀ scope, (Discipline.frames scope).Governs invoke') (fuel : Nat) :
    CallsBlindly origin origin' (Eval.call host invoke fuel) (Eval.call host' invoke' fuel) := by
  intro frames frames' machine machine' decl arguments hshare hflat harguments
  unfold Eval.call
  by_cases harity : arguments.length ≠ decl.parameters.length
  · rw [if_pos harity, if_pos harity]
    exact .error hshare
  · rw [if_neg harity, if_neg harity]
    have hbody := meets_body hhosts hinvoke hframes fuel hflat harguments hshare
    -- The frame of a function from the top is on every stack.
    refine hbody.map fun flow hflow => ?_
    cases flow with
    | normal => exact trivial
    | returned value => exact hflow

/-- By induction on the depth of calls: functions from the top do not see their callers. -/
theorem callsBlindly_callWithin (hhosts : host.Alike host' origin origin') (depth : Nat) :
    CallsBlindly origin origin' (Eval.callWithin host depth) (Eval.callWithin host' depth) := by
  induction depth with
  | zero => exact fun _ _ _ _ _ _ hshare _ _ => .error hshare
  | succ depth ih => exact ih.call hhosts (Eval.governs_callWithin host' depth) depth

end Twins

/-- How a call ends: with a value, or with a reason to stop. -/
def Eval.ended (outcome : Except Halt Value) (machine : Machine) :
    EStateM.Result Halt Machine Value :=
  match outcome with
  | .ok value => .ok value machine
  | .error halt => .error halt machine

/-- A call of a function from the top neither sees nor touches its callers.  From two machines that
share the global frame, and else may have any frames and any count of pushes, it gives the same
value or stops for the same reason, prints the same texts, makes the same number of random draws and
leaves the same global frame; all other frames stay what they were. -/
theorem calls_do_not_see_callers {host host' : Host} {machine machine' : Machine}
    {decl : FnDecl Stmt} {arguments : List Value}
    (hglobals : machine'.scope.globals = machine.scope.globals)
    (hfunctions : machine.scope.globals.FromTop) (hdecl : decl.IsFlat)
    (harguments : ∀ argument ∈ arguments, argument.FromTop)
    (hhosts : host.Alike host' machine.console machine'.console) (fuel : Nat) :
    ∃ (outcome : Except Halt Value) (globals : Bindings Value) (pushed pushed' : Nat)
      (texts : Array String) (draws : Nat),
      Eval.callWithin host fuel decl .top arguments machine =
        Eval.ended outcome
          ⟨⟨globals, machine.scope.frames, pushed⟩, machine.console.after texts draws⟩ ∧
      Eval.callWithin host' fuel decl .top arguments machine' =
        Eval.ended outcome
          ⟨⟨globals, machine'.scope.frames, pushed'⟩, machine'.console.after texts draws⟩ := by
  have hshare := Machine.Share.of_globals hglobals hfunctions
  have hmeets := Twins.callsBlindly_callWithin hhosts fuel _ _ machine machine' decl arguments
    hshare hdecl harguments
  generalize Eval.callWithin host fuel decl .top arguments machine = ending at hmeets ⊢
  generalize Eval.callWithin host' fuel decl .top arguments machine' = ending' at hmeets ⊢
  cases hmeets with
  | @ok result _ _ _ hafter =>
      obtain ⟨-⟩ := hafter
      exact ⟨.ok result, _, _, _, _, _, rfl, rfl⟩
  | @error halt _ _ hafter =>
      obtain ⟨-⟩ := hafter
      exact ⟨.error halt, _, _, _, _, _, rfl, rfl⟩

/-- A function that adds to a global, prints the sum and returns it. -/
def addToTotal : FnDecl Stmt :=
  ⟨⟨0, 0⟩, "add", [⟨"amount", .int⟩], .int,
    ⟨[.expr (.assign (.name "total" default)
        (.binary .add (.name "total" default) (.name "amount" default) default) default),
      .expr (.call "print" default [.name "total" default] default),
      .ret (.name "total" default) default], default⟩, default⟩

/-- A global frame with the function, its sum and `print`. -/
def globalsWithTotal : Bindings Value :=
  ((Std.ExtTreeMap.insert ∅ "print" (.builtin .print)).insert "total" (.int 40)).insert "add"
    (.function addToTotal .top)

theorem addToTotal_isFlat : addToTotal.IsFlat := by
  simp [FnDecl.IsFlat, addToTotal, Stmt.partsOfBlock, Stmt.partsOfAll, Stmt.parts, Stmt.decl?]

theorem globalsWithTotal_fromTop : globalsWithTotal.FromTop := by
  have hempty : Bindings.FromTop (∅ : Bindings Value) :=
    fun name value hvalue => by simp at hvalue
  have hprint : Value.FromTop (.builtin .print) := trivial
  have htotal : Value.FromTop (.int 40) := trivial
  have hadd : Value.FromTop (.function addToTotal .top) := ⟨rfl, addToTotal_isFlat⟩
  exact ((hempty.insert hprint).insert htotal).insert hadd

/-- A caller at the top. -/
def callerAtTop : Machine := ⟨⟨globalsWithTotal, #[], 0⟩, .empty⟩

/-- A caller inside of two other calls; the inner one has a variable with the name of the global,
and something was printed before. -/
def callerInside : Machine :=
  ⟨⟨globalsWithTotal, #[⟨∅, none, Scope.global, 4⟩,
    ⟨Std.ExtTreeMap.insert ∅ "total" (.string "mine"), none, 1, 7⟩], 9⟩, ⟨#["earlier"], 3⟩⟩

theorem addToTotal_does_not_see_callers :
    callerInside.scope.globals = callerAtTop.scope.globals ∧
    ∃ (outcome : Except Halt Value) (globals : Bindings Value) (pushed pushed' : Nat)
      (texts : Array String) (draws : Nat),
      Eval.callWithin (.accepting default) 5 addToTotal .top [.int 2] callerAtTop =
        Eval.ended outcome
          ⟨⟨globals, callerAtTop.scope.frames, pushed⟩, callerAtTop.console.after texts draws⟩ ∧
      Eval.callWithin (.accepting default) 5 addToTotal .top [.int 2] callerInside =
        Eval.ended outcome
          ⟨⟨globals, callerInside.scope.frames, pushed'⟩,
            callerInside.console.after texts draws⟩ := by
  have hglobals : callerInside.scope.globals = callerAtTop.scope.globals := rfl
  have harguments : ∀ argument ∈ [Value.int 2], argument.FromTop := by
    intro argument hmem
    rw [List.mem_singleton.mp hmem]
    exact trivial
  have hhosts : (Host.accepting default).Alike (.accepting default) callerAtTop.console
      callerInside.console := ⟨fun _ => rfl, fun _ _ => rfl⟩
  exact ⟨hglobals, calls_do_not_see_callers hglobals globalsWithTotal_fromTop addToTotal_isFlat
    harguments hhosts 5⟩

end Quill
