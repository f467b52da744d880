import Quill.Proofs.Twins.Walk

/-!
# Refused output only truncates

A host that refuses a text ends the run, wherever in the program the text was to be written.  Such a
run is compared with the run of the same program, from the same machine and with the same random
draws, under a host that accepts everything.  The two go abreast in one machine up to the first
refusal.  There the second run stops, and whatever the first one writes afterwards comes behind the
texts that both have written.
-/

namespace Quill

namespace Host

variable {host : Host} {first place : Nat} {texts : Array String} {reason : String}

/-- The reason for which a host refuses the text at some place, given the texts in front of it. -/
def verdict (host : Host) (texts : Array String) (place : Nat) : Option String :=
  texts[place]?.bind (host.refusal (texts.take place))

/-- The host accepts the texts from some place on. -/
def AcceptsFrom (host : Host) (first : Nat) (texts : Array String) : Prop :=
  ∀ place, first ≤ place → host.verdict texts place = none

/-- Among the texts from `first` on, the one at `place` is the first that the host refuses. -/
structure RefusesFirst (host : Host) (first : Nat) (texts : Array String) (place : Nat)
    (reason : String) : Prop where
  first_le : first ≤ place
  refused : host.verdict texts place = some reason
  before : ∀ earlier, first ≤ earlier → earlier < place → host.verdict texts earlier = none

theorem verdict_of_size_le (h : texts.size ≤ place) : host.verdict texts place = none := by
  rw [verdict, Array.getElem?_eq_none h, Option.bind_none]

/-- What comes behind a place is not in front of it. -/
theorem take_push (text : String) (h : place ≤ texts.size) :
    (texts.push text).take place = texts.take place := by
  rw [Array.take_eq_extract, Array.extract_push, if_pos h, Array.take_eq_extract]

/-- A text is judged by what is in front of it. -/
theorem verdict_push_of_lt (text : String) (h : place < texts.size) :
    host.verdict (texts.push text) place = host.verdict texts place := by
  rw [verdict, Array.getElem?_push, if_neg (by omega), take_push text (by omega), verdict]

theorem verdict_push_size (text : String) :
    host.verdict (texts.push text) texts.size = host.refusal texts text := by
  rw [verdict, Array.getElem?_push_size, Option.bind_some, take_push text (Nat.le_refl _),
    Array.take_eq_extract, Array.extract_size]

theorem acceptsFrom_size : host.AcceptsFrom texts.size texts :=
  fun _ hplace => verdict_of_size_le hplace

theorem AcceptsFrom.push (h : host.AcceptsFrom first texts) {text : String}
    (haccepted : host.refusal texts text = none) : host.AcceptsFrom first (texts.push text) := by
  intro place hplace
  rcases Nat.lt_trichotomy place texts.size with hlt | rfl | hgt
  · rw [verdict_push_of_lt text hlt]
    exact h place hplace
  · rw [verdict_push_size, haccepted]
  · exact verdict_of_size_le (by rw [Array.size_push]; omega)

/-- After texts that were accepted, the next one is refused. -/
theorem AcceptsFrom.refusesFirst (h : host.AcceptsFrom first texts) (hfirst : first ≤ texts.size)
    {text : String} (hrefused : host.refusal texts text = some reason) :
    host.RefusesFirst first (texts.push text) texts.size reason where
  first_le := hfirst
  refused := by rw [verdict_push_size, hrefused]
  before earlier hearlier hlt := by
    rw [verdict_push_of_lt text hlt]
    exact h earlier hearlier

namespace RefusesFirst

theorem lt_size (h : host.RefusesFirst first texts place reason) : place < texts.size := by
  refine Nat.lt_of_not_le fun hle => ?_
  have hrefused := h.refused
  rw [verdict_of_size_le hle] at hrefused
  cases hrefused

/-- It stays the first, whatever is written after it. -/
theorem push (h : host.RefusesFirst first texts place reason) (text : String) :
    host.RefusesFirst first (texts.push text) place reason where
  first_le := h.first_le
  refused := by rw [verdict_push_of_lt text h.lt_size, h.refused]
  before earlier hearlier hlt := by
    rw [verdict_push_of_lt text (Nat.lt_trans hlt h.lt_size)]
    exact h.before earlier hearlier hlt

theorem not_acceptsFrom (h : host.RefusesFirst first texts place reason) :
    ¬ host.AcceptsFrom first texts := by
  intro haccepts
  have hrefused := h.refused
  rw [haccepts place h.first_le] at hrefused
  cases hrefused

theorem unique {place' : Nat} {reason' : String}
    (h : host.RefusesFirst first texts place reason)
    (h' : host.RefusesFirst first texts place' reason') : place = place' ∧ reason = reason' := by
  have hrefused := h.refused
  have hrefused' := h'.refused
  rcases Nat.lt_trichotomy place place' with hlt | rfl | hgt
  · rw [h'.before place h.first_le hlt] at hrefused
    cases hrefused
  · exact ⟨rfl, Option.some.inj (hrefused.symm.trans hrefused')⟩
  · rw [h.before place' h'.first_le hgt] at hrefused'
    cases hrefused'

end RefusesFirst

end Host

/-- The texts that were accepted by the end of a run. -/
def Eval.written {α : Type} : EStateM.Result Halt Machine α → Array String
  | .ok _ machine => machine.console.written
  | .error _ machine => machine.console.written

/-- A run under a host that may refuse texts, beside the run in which all texts are accepted: they
go abreast in one machine as long as the host has accepted what was written from `first` on, and
they part by its first refusal. -/
def Twins.upToRefusal (host : Host) (first : Nat) : Twins where
  abreast state state' := state = state' ∧ first ≤ state.console.written.size ∧
    host.AcceptsFrom first state.console.written
  parted console halt other := ∃ reason, halt = .fault (.outputFailed reason) ∧
    host.RefusesFirst first console.written other.written.size reason ∧
    console.written.take other.written.size = other.written
  value _ := True
  function _ := True
  hereditary := Value.hereditary_true
  free _ _ := trivial
  get habreast name := by rw [habreast.1]
  known _ _ _ _ := trivial
  update habreast name stored scope _ hupdate :=
    ⟨scope, habreast.1 ▸ hupdate, by rw [habreast.1], habreast.2⟩
  insert habreast name stored _ := ⟨by rw [habreast.1], habreast.2⟩
  declare habreast decl _ := ⟨by rw [habreast.1], habreast.2⟩

namespace Twins

variable {host : Host} {first : Nat}

theorem upToRefusal_identical (host : Host) (first : Nat) :
    (upToRefusal host first).Identical where
  same habreast := habreast.1
  rescope _ habreast := ⟨rfl, habreast.2⟩
  value _ := trivial
  admits _ _ _ := trivial

/-- The one step at which the runs can part. -/
theorem step_write (text : String) :
    (upToRefusal host first).Step (Eval.interact (Interact.write (.accepting host.draw) text))
      (Eval.interact (Interact.write host text)) Any where
  both := by
    rintro state _ ⟨rfl, hfirst, haccepts⟩
    by_cases hempty : text.isEmpty = true
    · simp only [Eval.interact, Interact.write, if_pos hempty]
      exact .inl (.ok trivial ⟨rfl, hfirst, haccepts⟩)
    · simp only [Eval.interact, Interact.write, if_neg hempty, Host.accepting]
      cases hrefusal : host.refusal state.console.written text with
      | none =>
          refine .inl (.ok trivial ⟨rfl, ?_, haccepts.push hrefusal⟩)
          exact Nat.le_trans hfirst (by simp)
      | some reason =>
          -- The first run has written the text that the second one could not.
          refine .inr ⟨_, state, rfl, trivial, reason, rfl,
            haccepts.refusesFirst hfirst hrefusal, ?_⟩
          simp
  alone state halt console hparted := by
    obtain ⟨reason, rfl, hrefuses, htake⟩ := hparted
    by_cases hempty : text.isEmpty = true
    · simp only [Eval.interact, Interact.write, if_pos hempty]
      exact ⟨trivial, reason, rfl, hrefuses, htake⟩
    · simp only [Eval.interact, Interact.write, if_neg hempty, Host.accepting]
      refine ⟨trivial, reason, rfl, hrefuses.push text, ?_⟩
      rw [Host.take_push text (Nat.le_of_lt hrefuses.lt_size), htake]

/-- Random draws are the same on both sides. -/
theorem step_draw :
    (upToRefusal host first).Step (Eval.interact (Interact.draw (.accepting host.draw)))
      (Eval.interact (Interact.draw host)) Any where
  both := by
    rintro state _ ⟨rfl, habreast⟩
    exact .inl (.ok trivial ⟨rfl, habreast⟩)
  alone _ _ _ hparted := ⟨trivial, hparted⟩

theorem natives_upToRefusal (host : Host) (first : Nat) :
    (upToRefusal host first).Natives (.accepting host.draw) host :=
  natives_of step_write step_draw

/-- By induction on the depth of calls: a refusal inside a call goes through to its caller. -/
theorem calls_upToRefusal (host : Host) (first depth : Nat) :
    (upToRefusal host first).Calls (Eval.callWithin (.accepting host.draw) depth)
      (Eval.callWithin host depth) := by
  induction depth with
  | zero => exact fun _ _ _ _ _ => Step.throw
  | succ depth ih =>
      exact (upToRefusal_identical host first).calls_call (natives_upToRefusal host first) ih
        (Eval.governs_callWithin host depth) depth

/-- How such runs can end: in the same way, or the second one at the first refusal. -/
theorem Ends.upToRefusal {α : Type} {good : α → Prop}
    {ending ending' : EStateM.Result Halt Machine α}
    (h : (upToRefusal host first).Ends good ending ending') :
    (ending' = ending ∧ host.AcceptsFrom first (Eval.written ending)) ∨
      ∃ place reason final, host.RefusesFirst first (Eval.written ending) place reason ∧
        ending' = .error (.fault (.outputFailed reason)) final ∧
        final.console.written = (Eval.written ending).take place := by
  rcases h with hmeets | ⟨halt, final, rfl, halone⟩
  · refine .inl ?_
    cases hmeets with
    | ok hgood habreast =>
        obtain ⟨rfl, -, haccepts⟩ := habreast
        exact ⟨rfl, haccepts⟩
    | error habreast =>
        obtain ⟨rfl, -, haccepts⟩ := habreast
        exact ⟨rfl, haccepts⟩
  · refine .inr ⟨final.console.written.size, ?_⟩
    have hparted : ∃ reason, halt = .fault (.outputFailed reason) ∧
        host.RefusesFirst first (Eval.written ending) final.console.written.size reason ∧
        (Eval.written ending).take final.console.written.size = final.console.written := by
      cases ending with
      | ok result state => exact halone.2
      | error reason state => exact halone
    obtain ⟨reason, rfl, hrefuses, htake⟩ := hparted
    exact ⟨reason, final, hrefuses, rfl, htake.symm⟩

end Twins

namespace Eval

/-- Nothing is left to be done at the end of an output that is accepted. -/
theorem program_accepting (draw : Nat → Draw) (fuel : Nat) (statements : List Stmt) :
    program (.accepting draw) fuel statements =
      unfinished (.accepting draw) (callWithin (.accepting draw) fuel) fuel statements := by
  rw [program, programVia_eq]
  exact bind_pure _

/-- What is left for the second run to do, if the runs have not parted, is to finish the output. -/
theorem step_upToRefusal (host : Host) (first fuel : Nat) (statements : List Stmt) :
    (Twins.upToRefusal host first).Step (program (.accepting host.draw) fuel statements)
      (unfinished host (callWithin host fuel) fuel statements) Twins.Any := by
  rw [program_accepting]
  exact Twins.step_unfinished (Twins.natives_upToRefusal host first)
    (Twins.calls_upToRefusal host first fuel) fuel
    fun part _ => (Twins.upToRefusal_identical host first).admits part

/-- A host that refuses texts only truncates a run.  Let `free` be the run of a program under a host
that accepts everything, with the same random draws.  At the first of its texts that the host
refuses, the run under this host ends with the fault of a failed output, after the texts in front
of it and no others.  If the host refuses none of them, it runs the program as `free` does and then
finishes the output, and if that succeeds the two runs are equal. -/
theorem refused_output_truncates_run (host : Host) (fuel : Nat) (statements : List Stmt)
    (machine : Machine) :
    let free := program (.accepting host.draw) fuel statements machine
    let run := program host fuel statements machine
    let first := machine.console.written.size
    (∀ place reason, host.RefusesFirst first (written free) place reason →
      ∃ final, run = .error (.fault (.outputFailed reason)) final ∧
        final.console.written = (written free).take place) ∧
    (host.AcceptsFrom first (written free) →
      run = (program (.accepting host.draw) fuel statements >>= fun _ => flush host) machine ∧
      (host.flushFailure = none → run = free)) := by
  intro free run first
  have hstep := step_upToRefusal host first fuel statements
  have hrun : run = (unfinished host (callWithin host fuel) fuel statements >>=
      fun _ => flush host) machine := by
    rw [← programVia_eq]
    rfl
  rcases (hstep.both machine machine ⟨rfl, Nat.le_refl _, Host.acceptsFrom_size⟩).upToRefusal with
    ⟨hsame, haccepts⟩ | ⟨place, reason, final, hrefuses, herror, hwritten⟩
  · refine ⟨fun place reason hrefuses => absurd haccepts hrefuses.not_acceptsFrom, fun _ => ?_⟩
    have hfinish : run =
        (program (.accepting host.draw) fuel statements >>= fun _ => flush host) machine := by
      rw [hrun]
      show EStateM.bind _ _ machine = EStateM.bind _ _ machine
      rw [EStateM.bind, hsame, EStateM.bind]
    refine ⟨hfinish, fun hflush => ?_⟩
    have hpure : flush host = pure () := by rw [flush, hflush]
    rw [hfinish, hpure]
    show (program (.accepting host.draw) fuel statements >>= pure) machine = free
    rw [bind_pure]
  · refine ⟨fun place' reason' hrefuses' => ?_,
      fun haccepts => absurd haccepts hrefuses.not_acceptsFrom⟩
    obtain ⟨rfl, rfl⟩ := hrefuses.unique hrefuses'
    refine ⟨final, ?_, hwritten⟩
    rw [hrun]
    show EStateM.bind _ _ machine = _
    rw [EStateM.bind, herror]

/-- A program that prints from inside a call, in the arguments of another one. -/
def sayAndCount : List Stmt :=
  [.function ⟨⟨0, 0⟩, "say", [⟨"text", .string⟩], .int,
    ⟨[.expr (.call "print" default [.name "text" default] default),
      .ret (.int 1 default) default], default⟩, default⟩,
   .function ⟨⟨0, 1⟩, "main", [], .void,
    ⟨[.expr (.call "print" default
        [.binary .add (.call "say" default [.string "one" default] default)
          (.call "say" default [.string "two" default] default) default] default)],
      default⟩, default⟩]

/-- There is room for the first text only, and none of the second one is written. -/
theorem sayAndCount_is_truncated :
    let free := program (.accepting default) 4 sayAndCount .start
    let host := (Host.accepting default).limited 5 "full"
    written free = #["one", "two", "2"] ∧
    host.RefusesFirst 0 (written free) 1 "full" ∧
    ∃ final, program host 4 sayAndCount .start = .error (.fault (.outputFailed "full")) final ∧
      final.console.written = #["one"] := by
  intro free host
  have hfree : written free = #["one", "two", "2"] := by decide +kernel
  have hrefuses : host.RefusesFirst 0 (written free) 1 "full" := by
    rw [hfree]
    refine ⟨by decide, by decide +kernel, ?_⟩
    intro earlier _ hlt
    obtain rfl : earlier = 0 := by omega
    decide +kernel
  obtain ⟨final, hrun, hwritten⟩ :=
    (refused_output_truncates_run host 4 sayAndCount .start).1 1 "full" hrefuses
  exact ⟨hfree, hrefuses, final, hrun, hwritten.trans (congrArg (Array.take · 1) hfree)⟩

end Eval

end Quill
