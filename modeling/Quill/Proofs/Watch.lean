import Quill.Proofs.Twins.Walk

/-!
# Watched runs

What holds of every call of a run is stated by watching the run: each call is tested when it begins
and when it gives its result, and the first call that fails a test ends the run with a fault, the
alarm.  A watched run does the same as the run itself until the alarm is raised.  So if it never
ends in the alarm, the two are equal and every call passed its tests.
-/

namespace Quill

/-- The tests that every call of a declared function is put to. -/
structure Watch where
  /-- Whether the function may be called with the arguments. -/
  enters : FnDecl Stmt → List Value → Bool
  /-- Whether the function may give the result. -/
  leaves : FnDecl Stmt → Value → Bool
  /-- What ends the run after a failed test. -/
  alarm : Fault
  audible : alarm.isOrdinary = true ∨ alarm = .notAssignable

namespace Eval

/-- A call that is put to the tests. -/
def watchedCall (watch : Watch) (invoke : Invoke) : Invoke := fun decl frame arguments => do
  if watch.enters decl arguments then
    let result ← invoke decl frame arguments
    if watch.leaves decl result then
      return result
    else
      fail watch.alarm
  else
    fail watch.alarm

/-- Calls a declared function, with fewer than `fuel` calls inside each other, and puts each of them
to the tests. -/
def watchedWithin (host : Host) (watch : Watch) : Nat → Invoke
  | 0 => callWithin host 0
  | fuel + 1 => watchedCall watch (call host (watchedWithin host watch fuel) fuel)

/-- Runs a program and puts each call to the tests. -/
def watchedProgram (host : Host) (watch : Watch) (fuel : Nat) (program : List Stmt) : Eval Unit :=
  programVia host (watchedWithin host watch fuel) fuel program

/-- The second action does what the first does, unless it stops with the alarm. -/
def Follows {α : Type} (alarm : Fault) (plain watched : Eval α) : Prop :=
  ∀ machine, watched machine = plain machine ∨
    ∃ final, watched machine = .error (.fault alarm) final

/-- The second way of making calls does what the first does, unless it stops with the alarm. -/
def Shadows (alarm : Fault) (plain watched : Invoke) : Prop :=
  ∀ decl frame arguments,
    Follows alarm (plain decl frame arguments) (watched decl frame arguments)

/-- The first run is watched by the second: they go abreast in the same machine, and part only by
the alarm. -/
def upToAlarm (alarm : Fault) : Twins where
  abreast := Eq
  parted _ halt _ := halt = .fault alarm
  value _ := True
  function _ := True
  hereditary := Value.hereditary_true
  free _ _ := trivial
  get hsame name := by rw [hsame]
  known _ _ _ _ := trivial
  update hsame name stored scope _ hupdate := ⟨scope, hsame ▸ hupdate, by rw [hsame]⟩
  insert hsame name stored _ := by rw [hsame]
  declare hsame decl _ := by rw [hsame]

theorem upToAlarm_identical (alarm : Fault) : (upToAlarm alarm).Identical where
  same hsame := hsame
  rescope _ _ := rfl
  value _ := trivial
  admits _ _ _ := trivial

namespace Follows

variable {α : Type} {alarm : Fault} {plain watched : Eval α} {good : α → Prop}

theorem refl (action : Eval α) : Follows alarm action action :=
  fun _ => .inl rfl

/-- What follows up to the alarm is a step of the watched run. -/
theorem step (h : Follows alarm plain watched) (hgood : ∀ result, good result) :
    (upToAlarm alarm).Step plain watched good where
  both state state' hsame := by
    cases (hsame : state = state')
    have halone : ∀ ending : EStateM.Result Halt Machine α, ∀ console,
        (upToAlarm alarm).Alone good (.fault alarm) console ending := by
      intro ending console
      cases ending with
      | ok result final => exact ⟨hgood result, rfl⟩
      | error halt final => exact rfl
    rcases h state with heq | ⟨final, halarm⟩
    · rw [heq]
      cases plain state with
      | ok result final => exact .inl (.ok (hgood result) rfl)
      | error halt final => exact .inl (.error rfl)
    · exact .inr ⟨.fault alarm, final, halarm, halone _ _⟩
  alone state halt console hparted := by
    cases plain state with
    | ok result final => exact ⟨hgood result, hparted⟩
    | error reason final => exact hparted

theorem of_step (h : (upToAlarm alarm).Step plain watched good) : Follows alarm plain watched := by
  intro state
  rcases h.both state state rfl with hmeets | ⟨halt, final, hwatched, halone⟩
  · generalize plain state = ending at hmeets ⊢
    generalize watched state = ending' at hmeets ⊢
    cases hmeets with
    | ok hgood hsame => exact .inl (by rw [hsame])
    | error hsame => exact .inl (by rw [hsame])
  · have hhalt : halt = .fault alarm := by
      cases hplain : plain state with
      | ok result ended =>
          rw [hplain] at halone
          exact halone.2
      | error reason ended =>
          rw [hplain] at halone
          exact halone
    exact .inr ⟨final, hhalt ▸ hwatched⟩

end Follows

/-! ### The walk through a program -/

section Walk

variable {host : Host} {alarm : Fault} {plain watched : Invoke}

theorem natives_upToAlarm (host : Host) (alarm : Fault) : (upToAlarm alarm).Natives host host :=
  fun _ _ => (Follows.refl _).step fun _ => trivial

theorem Shadows.calls (h : Shadows alarm plain watched) : (upToAlarm alarm).Calls plain watched :=
  fun decl frame arguments _ _ => (h decl frame arguments).step fun _ => trivial

theorem follows_call (hinvoke : Shadows alarm plain watched)
    (hframes : ∀ scope, (Discipline.frames scope).Governs watched) (fuel : Nat) :
    Shadows alarm (call host plain fuel) (call host watched fuel) := by
  intro decl frame arguments
  have hcalls := (upToAlarm_identical alarm).calls_call (natives_upToAlarm host alarm)
    hinvoke.calls hframes fuel
  exact .of_step (hcalls decl frame arguments trivial fun _ _ => trivial)

theorem follows_programVia (hinvoke : Shadows alarm plain watched) (fuel : Nat)
    (program : List Stmt) :
    Follows alarm (programVia host plain fuel program) (programVia host watched fuel program) :=
  .of_step (Twins.step_programVia (natives_upToAlarm host alarm) hinvoke.calls
    ((Follows.refl _).step fun _ => trivial) fuel fun _ _ _ _ => trivial)

end Walk

/-! ### Watching a whole run -/

/-- A call that is put to tests it passes keeps to a discipline; if it may fail one, the alarm has
to be permitted. -/
theorem governs_watchedCall {discipline : Discipline} {watch : Watch} {invoke : Invoke}
    (hinvoke : discipline.Governs invoke)
    (henters : ∀ decl frame arguments, discipline.value (.function decl frame) →
      watch.enters decl arguments = true ∨ discipline.Permits (.fault watch.alarm))
    (hleaves : ∀ decl result, discipline.value result →
      watch.leaves decl result = true ∨ discipline.Permits (.fault watch.alarm)) :
    discipline.Governs (watchedCall watch invoke) := by
  intro decl frame arguments hdecl harguments
  unfold watchedCall
  by_cases henter : watch.enters decl arguments = true
  · rw [if_pos henter]
    refine Discipline.Keeps.bind (hinvoke decl frame arguments hdecl harguments)
      fun result hresult => ?_
    by_cases hleave : watch.leaves decl result = true
    · rw [if_pos hleave]
      exact Discipline.Keeps.pure hresult
    · rw [if_neg hleave]
      have hpermits := (hleaves decl result hresult).resolve_left hleave
      exact Ensures.fail fun _ hm => ⟨hm, hpermits⟩
  · rw [if_neg henter]
    have hpermits := (henters decl frame arguments hdecl).resolve_left henter
    exact Ensures.fail fun _ hm => ⟨hm, hpermits⟩

variable (host : Host) (watch : Watch)

/-- Watched calls leave the frame stack as they found it, too. -/
theorem governs_frames_watchedWithin (depth : Nat) (scope : Scope Value) :
    (Discipline.frames scope).Governs (watchedWithin host watch depth) := by
  have hpermits (scope : Scope Value) :
      (Discipline.frames scope).Permits (.fault watch.alarm) := by
    rintro _ ⟨⟩
    exact watch.audible.imp id fun halarm => ⟨halarm, not_false⟩
  -- The tests may fail here, but the alarm is a fault that the frames do not forbid.
  induction depth generalizing scope with
  | zero => exact governs_callWithin host 0 scope
  | succ depth ih =>
      exact governs_watchedCall (governs_call host ih depth scope)
        (fun _ _ _ _ => .inr (hpermits scope)) (fun _ _ _ => .inr (hpermits scope))

theorem follows_watchedCall {alarm : Fault} {plain watched : Invoke} (halarm : watch.alarm = alarm)
    (h : Shadows alarm plain watched) : Shadows alarm plain (watchedCall watch watched) := by
  intro decl frame arguments machine
  unfold watchedCall
  by_cases henter : watch.enters decl arguments = true
  · rw [if_pos henter]
    show EStateM.bind _ _ machine = _ ∨ ∃ final, EStateM.bind _ _ machine = _
    simp only [EStateM.bind]
    rcases h decl frame arguments machine with heq | ⟨final, hrun⟩
    -- The call did what the plain one does, and now its result is put to the test.
    · rw [heq]
      cases plain decl frame arguments machine with
      | ok result final =>
          by_cases hleave : watch.leaves decl result = true
          · simp only [if_pos hleave]
            exact .inl rfl
          · simp only [if_neg hleave]
            exact .inr ⟨final, by rw [fail, halarm]⟩
      | error halt final => exact .inl rfl
    -- A call inside of it has raised the alarm.
    · rw [hrun]
      exact .inr ⟨final, rfl⟩
  · rw [if_neg henter]
    exact .inr ⟨machine, by rw [fail, halarm]⟩

/-- By induction on the depth of calls: a watched call does what the call does, up to the alarm. -/
theorem follows_watchedWithin (depth : Nat) :
    Shadows watch.alarm (callWithin host depth) (watchedWithin host watch depth) := by
  induction depth with
  | zero => exact fun _ _ _ => Follows.refl _
  | succ depth ih =>
      exact follows_watchedCall watch rfl
        (follows_call ih (governs_frames_watchedWithin host watch depth) depth)

/-- A watched run that never ends in the alarm is the run itself. -/
theorem watchedProgram_eq {fuel : Nat} {statements : List Stmt} {machine : Machine}
    (h : ∀ final, watchedProgram host watch fuel statements machine ≠
      .error (.fault watch.alarm) final) :
    watchedProgram host watch fuel statements machine = program host fuel statements machine := by
  have hfollows : Follows watch.alarm (program host fuel statements)
      (watchedProgram host watch fuel statements) :=
    follows_programVia (follows_watchedWithin host watch fuel) fuel statements
  rcases hfollows machine with heq | ⟨final, halarm⟩
  · exact heq
  · exact absurd halarm (h final)

end Eval

end Quill
