import Quill.Proofs.Discipline

/-!
# The frame stack during a run

Whatever a program does, checked or not, each part of it leaves the frame stack as it found it:
every frame that was there before is still in its place, with the same serial number, the same
parent and at least the names that it bound.  This holds however the part ends, and the reason is
that each call pops the frame that it pushed, and no other, on every way out of it.
-/

namespace Quill

/-- The frame is still the same one, and binds at least the names that it bound before. -/
structure Frame.Kept {V : Type} (before after : Frame V) : Prop where
  serial : after.serial = before.serial
  parent : after.parent = before.parent
  context : after.context = before.context
  bound : ∀ name, name ∈ before.bindings → name ∈ after.bindings

namespace Scope

variable {V : Type} {scope before after : Scope V}

/-- The frames are still there, each in its place. -/
structure Kept (before after : Scope V) : Prop where
  size : after.frames.size = before.frames.size
  frame : ∀ (index : Nat) (frame : Frame V), before.frames[index]? = some frame →
    ∃ later, after.frames[index]? = some later ∧ frame.Kept later
  globals : ∀ name, name ∈ before.globals → name ∈ after.globals

theorem Kept.refl (scope : Scope V) : scope.Kept scope where
  size := rfl
  frame _ frame h := ⟨frame, h, rfl, rfl, rfl, fun _ hname => hname⟩
  globals _ h := h

theorem Kept.trans {middle : Scope V} (hfirst : before.Kept middle) (hsecond : middle.Kept after) :
    before.Kept after where
  size := hsecond.size.trans hfirst.size
  frame := by
    intro index frame hframe
    obtain ⟨between, hbetween, hfirst⟩ := hfirst.frame index frame hframe
    obtain ⟨later, hlater, hsecond⟩ := hsecond.frame index between hbetween
    exact ⟨later, hlater, hsecond.serial.trans hfirst.serial, hsecond.parent.trans hfirst.parent,
      hsecond.context.trans hfirst.context,
      fun name hname => hsecond.bound name (hfirst.bound name hname)⟩
  globals name h := hsecond.globals name (hfirst.globals name h)

/-- Binding a name unbinds none. -/
theorem kept_insertIn (scope : Scope V) (id : FrameId) (name : String) (value : V) :
    scope.Kept (scope.insertIn id name value) := by
  cases id with
  | zero =>
      refine { Kept.refl scope with globals := fun other hother => ?_ }
      exact Std.ExtTreeMap.mem_insert.mpr (.inr hother)
  | succ place =>
      refine ⟨by simp [insertIn], fun index frame hframe => ?_, fun _ h => h⟩
      simp only [insertIn, Array.getElem?_modify]
      by_cases hplace : place = index
      · refine ⟨{ frame with bindings := frame.bindings.insert name value },
          by simp [hplace, hframe], rfl, rfl, rfl, fun other hother => ?_⟩
        exact Std.ExtTreeMap.mem_insert.mpr (.inr hother)
      · exact ⟨frame, by simp [hplace, hframe], rfl, rfl, rfl, fun _ h => h⟩

theorem kept_insert (scope : Scope V) (name : String) (value : V) :
    scope.Kept (scope.insert name value) :=
  kept_insertIn scope scope.current name value

theorem kept_of_update {name : String} {value : V} (h : before.update? name value = some after) :
    before.Kept after := by
  obtain ⟨id, -, rfl⟩ := Option.map_eq_some_iff.mp h
  exact kept_insertIn before id name value

/-- Popping after a push removes the very frame that was pushed. -/
structure PopsPushed (scope : Scope V) (parent : FrameId) (inner outer : Scope V) : Prop where
  pop : inner.pop = .ok outer
  frame : ∃ last, inner.frames = outer.frames.push last ∧ last.serial = scope.pushed + 1 ∧
    last.parent = parent
  kept : scope.Kept outer

/-- If the frames are still there after a push, a pop takes the pushed frame away again. -/
theorem Kept.popsPushed {parent : FrameId} {context : Option Ty} {inner : Scope V}
    (h : (scope.push parent context).Kept inner) :
    ∃ outer, scope.PopsPushed parent inner outer := by
  have hsize : inner.frames.size = scope.frames.size + 1 := by
    rw [h.size]
    simp [push]
  have hnonempty : inner.frames.size ≠ 0 := by omega
  obtain ⟨rest, last, hframes⟩ := Array.eq_push_of_size_ne_zero hnonempty
  have hrest : rest.size = scope.frames.size := by
    rw [hframes, Array.size_push] at hsize
    omega
  refine ⟨{ inner with frames := rest }, by simp [pop, hframes], ⟨last, hframes, ?_⟩,
    hrest, fun index frame hframe => ?_, h.globals⟩
  -- The last frame is the pushed one: it stands in the place where that one was put.
  · obtain ⟨found, hfound, hkept⟩ := h.frame scope.frames.size
      ⟨∅, context, parent, scope.pushed + 1⟩ (by simp [push])
    rw [hframes, ← hrest] at hfound
    obtain rfl : last = found := by simpa using hfound
    exact ⟨hkept.serial, hkept.parent⟩
  -- The frames below it stand in the same places with it and without it.
  · have hbound : index < scope.frames.size := (Array.getElem?_eq_some_iff.mp hframe).1
    have hbelow : index ≠ scope.frames.size := by omega
    obtain ⟨later, hlater, hkept⟩ := h.frame index frame (by
      simpa [push, Array.getElem?_push, hbelow] using hframe)
    refine ⟨later, ?_, hkept⟩
    rw [hframes, Array.getElem?_push, if_neg (by omega)] at hlater
    exact hlater

end Scope

/-! ### Runs -/

namespace Discipline

/-- The frames of a scope stay in their places; nothing is asked of values. -/
def frames (scope : Scope Value) : Discipline where
  machine machine := scope.Kept machine.scope
  value _ := True
  function _ := True
  strict := False
  hereditary := Value.hereditary_true
  get _ _ _ _ _ := trivial
  update _ h _ _ _ _ hupdate := h.trans (Scope.kept_of_update hupdate)
  insert machine h name value _ := h.trans (Scope.kept_insert machine.scope name value)
  declare machine h decl _ := h.trans (Scope.kept_insert machine.scope decl.name _)
  exchange _ h _ := h

theorem frames_admits (scope : Scope Value) (stmt : Stmt) : (frames scope).Admits stmt :=
  ⟨fun hstrict => hstrict.elim, fun _ _ => trivial⟩

/-- Binding arguments keeps the frames. -/
theorem frames_bindArguments {scope : Scope Value} {machine : Machine}
    (h : (frames scope).machine machine) (parameters : List Parameter) (arguments : List Value) :
    (frames scope).machine (Eval.bindArguments parameters arguments machine) := by
  refine List.foldlRecOn _ _ h fun state hstate pair _ => ?_
  exact (frames scope).insert state hstate pair.1.name pair.2 trivial

end Discipline

namespace Eval

variable {host : Host} {invoke : Invoke} {α : Type}

/-- However the action ends, the frames that were there before are still in their places, and the
reason is never a pop of the global frame. -/
def LeavesFrames (action : Eval α) : Prop :=
  ∀ machine,
    match action machine with
    | .ok _ final => machine.scope.Kept final.scope
    | .error halt final => machine.scope.Kept final.scope ∧ halt ≠ .fault .popGlobalFrame

/-- However the action ends when it is run right after a push, a pop then takes the pushed frame
away again, and this is how the action ends in a frame of its own. -/
def PopsOwnFrame (action : Eval α) : Prop :=
  ∀ (machine : Machine) (parent : FrameId),
    match action { machine with scope := machine.scope.push parent none } with
    | .ok result inner => ∃ outer, machine.scope.PopsPushed parent inner.scope outer ∧
        inFrame parent action machine = .ok result { inner with scope := outer }
    | .error halt inner => ∃ outer, machine.scope.PopsPushed parent inner.scope outer ∧
        inFrame parent action machine = .error halt { inner with scope := outer }

theorem ne_popGlobalFrame_of_permits {scope : Scope Value} {halt : Halt}
    (h : (Discipline.frames scope).Permits halt) : halt ≠ .fault .popGlobalFrame := by
  rintro rfl
  rcases h _ rfl with hordinary | ⟨hfault, -⟩
  · exact Bool.noConfusion hordinary
  · exact Fault.noConfusion hfault

/-- What keeps the frames of every scope leaves those of the scope that it starts in. -/
theorem leavesFrames_of_keeps {action : Eval α} {result : Scope Value → α → Prop}
    (h : ∀ scope, (Discipline.frames scope).Keeps action (result scope)) :
    LeavesFrames action := by
  intro machine
  have hrun := h machine.scope machine (Scope.Kept.refl machine.scope)
  cases hact : action machine with
  | ok value final =>
      rw [hact] at hrun
      exact hrun.1
  | error halt final =>
      rw [hact] at hrun
      exact ⟨hrun.1, ne_popGlobalFrame_of_permits hrun.2⟩

theorem keeps_body {scope : Scope Value} (hinvoke : (Discipline.frames scope).Governs invoke)
    (fuel : Nat) (decl : FnDecl Stmt) (arguments : List Value) :
    (Discipline.frames scope).Keeps (body host invoke fuel decl arguments) fun _ => True := by
  refine Discipline.Keeps.bind (Discipline.Keeps.change fun machine h =>
    Discipline.frames_bindArguments h decl.parameters arguments) fun _ _ => ?_
  exact (Discipline.keeps_block hinvoke fuel decl.body fun part _ =>
    Discipline.frames_admits scope part).imp fun _ _ h => ⟨h.1, trivial⟩

/-- Running a body right after the push for it: the pop takes that frame away again. -/
theorem body_popsPushed (host : Host)
    (hinvoke : ∀ scope, (Discipline.frames scope).Governs invoke) (fuel : Nat)
    (decl : FnDecl Stmt) (arguments : List Value) (machine : Machine) (parent : FrameId) :
    Ensures (· = { machine with scope := machine.scope.push parent none })
      (body host invoke fuel decl arguments)
      (fun _ inner => ∃ outer, machine.scope.PopsPushed parent inner.scope outer)
      (fun halt inner => (∃ outer, machine.scope.PopsPushed parent inner.scope outer) ∧
        (Discipline.frames machine.scope).Permits halt) := by
  -- The scope whose frames the body keeps is the one with the new frame on top.
  refine (keeps_body (hinvoke (machine.scope.push parent none)) fuel decl arguments).weaken ?_ ?_ ?_
  · rintro _ rfl
    exact Scope.Kept.refl _
  · exact fun _ _ h => h.1.popsPushed
  · exact fun _ _ h => ⟨h.1.popsPushed, h.2⟩

theorem body_popsOwnFrame (host : Host)
    (hinvoke : ∀ scope, (Discipline.frames scope).Governs invoke) (fuel : Nat)
    (decl : FnDecl Stmt) (arguments : List Value) :
    PopsOwnFrame (body host invoke fuel decl arguments) := by
  intro machine parent
  have hbody := body_popsPushed host hinvoke fuel decl arguments machine parent _ rfl
  rw [inFrame_eq]
  cases hrun : body host invoke fuel decl arguments
    { machine with scope := machine.scope.push parent none } with
  | ok flow inner =>
      rw [hrun] at hbody
      obtain ⟨outer, hpops⟩ := hbody
      exact ⟨outer, hpops, popped_ok hpops.pop⟩
  | error halt inner =>
      rw [hrun] at hbody
      obtain ⟨⟨outer, hpops⟩, -⟩ := hbody
      exact ⟨outer, hpops, popped_error hpops.pop⟩

/-- A call keeps the frames of every scope if the calls inside it do. -/
theorem governs_call (host : Host) (hinvoke : ∀ scope, (Discipline.frames scope).Governs invoke)
    (fuel : Nat) (scope : Scope Value) :
    (Discipline.frames scope).Governs (call host invoke fuel) := by
  intro decl frame arguments _ _
  refine Ensures.call (fun _ hm _ => ⟨hm, Discipline.permits_of_isOrdinary rfl⟩)
    (fun _ hm _ => ⟨hm, Discipline.permits_of_isOrdinary rfl⟩) fun machine parent hm _ _ => ?_
  refine (body_popsPushed host hinvoke fuel decl arguments machine parent).weaken
    (fun _ h => h) ?_ ?_
  · rintro flow inner ⟨outer, hpops⟩
    exact ⟨outer, hpops.pop, hm.trans hpops.kept, trivial⟩
  · rintro halt inner ⟨⟨outer, hpops⟩, hpermits⟩
    exact ⟨outer, hpops.pop, hm.trans hpops.kept, hpermits⟩

/-- By induction on the depth of calls: calls keep the frames of every scope. -/
theorem governs_callWithin (host : Host) (depth : Nat) (scope : Scope Value) :
    (Discipline.frames scope).Governs (callWithin host depth) := by
  -- For all scopes at once, because a body runs in another scope than the call of it.
  induction depth generalizing scope with
  | zero => exact fun _ _ _ _ _ _ hm => ⟨hm, Discipline.permits_outOfFuel⟩
  | succ depth ih => exact governs_call host ih depth scope

/-- A whole run keeps the frames of every scope, too. -/
theorem program_leavesFrames (host : Host) (fuel : Nat) (statements : List Stmt) :
    LeavesFrames (program host fuel statements) := by
  intro machine
  let kept (final : Machine) : Prop := machine.scope.Kept final.scope
  let stopped (halt : Halt) (final : Machine) : Prop :=
    kept final ∧ halt ≠ .fault .popGlobalFrame
  have hinvoke := governs_callWithin host fuel machine.scope
  have hstmts : Ensures kept (topLevel host (callWithin host fuel) fuel statements)
      (fun _ => kept) stopped := by
    refine Ensures.topLevel fun statement _ _ => ?_
    refine (Discipline.keeps_stmt hinvoke fuel statement fun part _ =>
      Discipline.frames_admits machine.scope part).weaken (fun _ hm => hm) ?_ ?_
    · exact fun _ _ h => ⟨h.1, fun _ _ => ⟨h.1, by simp⟩⟩
    · exact fun _ _ h => ⟨h.1, ne_popGlobalFrame_of_permits h.2⟩
  have hmain : Ensures kept (callMain (callWithin host fuel)) (fun _ => kept) stopped := by
    refine Ensures.callMain (fun _ hm => ⟨hm, by simp⟩) fun decl frame _ => ?_
    refine (hinvoke decl frame [] trivial (by simp)).weaken (fun _ hm => hm.1) ?_ ?_
    · exact fun _ _ h => h.1
    · exact fun _ _ h => ⟨h.1, ne_popGlobalFrame_of_permits h.2⟩
  have hdeclare : ∀ start, kept start → kept (declareFunctions statements start) := by
    intro start hstart
    refine List.foldlRecOn _ _ hstart fun state hstate decl _ => ?_
    exact (Discipline.frames machine.scope).declare state hstate decl trivial
  exact Ensures.programVia hdeclare hstmts hmain (fun _ _ hm => ⟨hm, by simp⟩) machine
    (Scope.Kept.refl machine.scope)

/-- However a part of a run ends, with a value, with a return or with any fault, each frame that was
on the stack is still in its place, with its serial number, its parent and all names that it bound;
in particular a call pops exactly the frame that it pushed, and never the global one. -/
theorem parts_of_run_leave_frames (host : Host) (depth fuel : Nat) :
    (∀ expr, LeavesFrames (evaluate host (callWithin host depth) expr)) ∧
    (∀ expr, LeavesFrames (locate host (callWithin host depth) expr)) ∧
    (∀ statement, LeavesFrames (stmt host (callWithin host depth) fuel statement)) ∧
    (∀ inner, LeavesFrames (block host (callWithin host depth) fuel inner)) ∧
    (∀ decl frame arguments, LeavesFrames (callWithin host depth decl frame arguments)) ∧
    (∀ statements, LeavesFrames (program host fuel statements)) ∧
    ∀ decl arguments, PopsOwnFrame (body host (callWithin host depth) fuel decl arguments) := by
  have hinvoke := governs_callWithin host depth
  refine ⟨fun expr => ?_, fun expr => ?_, fun statement => ?_, fun inner => ?_,
    fun decl frame arguments => ?_, program_leavesFrames host fuel,
    fun decl arguments machine parent => ?_⟩
  · exact leavesFrames_of_keeps fun scope =>
      Discipline.keeps_evaluate (hinvoke scope) expr fun hstrict => hstrict.elim
  · exact leavesFrames_of_keeps fun scope =>
      Discipline.keeps_locate (hinvoke scope) expr fun hstrict => hstrict.elim
  · exact leavesFrames_of_keeps fun scope =>
      Discipline.keeps_stmt (hinvoke scope) fuel statement fun part _ =>
        Discipline.frames_admits scope part
  · exact leavesFrames_of_keeps fun scope =>
      Discipline.keeps_block (hinvoke scope) fuel inner fun part _ =>
        Discipline.frames_admits scope part
  · exact leavesFrames_of_keeps fun scope =>
      hinvoke scope decl frame arguments trivial fun _ _ => trivial
  · exact body_popsOwnFrame host hinvoke fuel decl arguments machine parent

end Eval

end Quill
