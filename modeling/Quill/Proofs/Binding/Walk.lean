import Quill.Proofs.Binding.Accounts

/-!
# Runs under an account

The trees of expressions and statements are gone through once, for every account.  Two things come
out of it.  A part of a run binds the name in the frame in which it runs only by one of its own
declarations, and binds it in no other frame that was there before.  And if the text covers the
name, no part of the run complains about it.
-/

namespace Quill

namespace Account

variable {account : Account} {free : Prop} {scope next : Scope Value} {host : Host}
  {invoke : Invoke} {bound : Bool}

/-! ### Expressions -/

/-- The names may be mentioned, and have a value if they must. -/
def Ready (account : Account) (scope : Scope Value) (names : List String) : Prop :=
  ∀ name ∈ names, account.visible name ∧
    (account.sure → name = account.name → (scope.get? name).isSome = true)

theorem Ready.leads {names : List String} (h : account.Ready scope names)
    (hleads : scope.Leads account.name free next) : account.Ready next names :=
  fun name hmem => ⟨(h name hmem).1, fun hsure hname =>
    hleads.kept.isSome_get? ((h name hmem).2 hsure hname)⟩

theorem ready_append {names others : List String} :
    account.Ready scope (names ++ others) ↔
      account.Ready scope names ∧ account.Ready scope others :=
  List.forall_mem_append

/-- A name that may be mentioned, but has no value, is not the one that is followed. -/
theorem Ready.ne {names : List String} (h : account.Ready scope names) {name : String}
    (hmem : name ∈ names) (hnone : scope.get? name = none) :
    account.sure → name ≠ account.name := by
  intro hsure hname
  have hsome := (h name hmem).2 hsure hname
  rw [hnone] at hsome
  cases hsome

/-- What is known of the location of an expression with the given names in it. -/
def Locates (account : Account) (names : List String) (scope : Scope Value) (location : Location) :
    Prop :=
  location.Holds (account.value scope) ∧ ∀ name, location.root? = some name → name ∈ names

namespace Keeps

theorem read {names : List String} {location : Location} (hready : account.Ready scope names)
    (hlocation : account.Locates names scope location) :
    account.Keeps free scope (Eval.read location) account.value := by
  refine Eval.Ensures.read ?_ ?_
  · rintro found machine hok ⟨rfl, hsound⟩
    refine ⟨Scope.Leads.refl _ _ _, hsound, ?_⟩
    apply Location.value_of_read (account.hereditary _) _ hlocation.1 hok
    exact fun name stored hroot hget => hsound.get (hready name (hlocation.2 name hroot)).1 hget
  · rintro fault machine herror ⟨rfl, -⟩
    cases hunbound : fault.isUnbound with
    | false => exact permits_of_isUnbound hunbound
    | true =>
        obtain ⟨name, hroot, hnone, rfl⟩ := Location.complaint_of_read herror hunbound
        exact permits_complaint (hready.ne (hlocation.2 name hroot) hnone)

theorem write {names : List String} {location : Location} {stored : Value}
    (hready : account.Ready scope names) (hlocation : account.Locates names scope location)
    (hstored : account.value scope stored) :
    account.Keeps free scope (Eval.write location stored) Any := by
  refine Eval.Ensures.write ?_ ?_
  · rintro written machine hok ⟨rfl, hsound⟩
    obtain ⟨name, result, hresult, hupdate⟩ := Location.update_root_of_write
      (account.hereditary machine.scope)
      (fun name found hroot hget => hsound.get (hready name (hlocation.2 name hroot)).1 hget)
      hlocation.1 hstored hok
    have hleads : machine.scope.Leads account.name free written := Scope.Leads.update hupdate
    obtain ⟨id, -, rfl⟩ := Option.map_eq_some_iff.mp hupdate
    exact ⟨hleads, hsound.insertIn hleads (value_leads hleads hresult), trivial⟩
  · rintro fault machine herror ⟨rfl, -⟩
    cases hunbound : fault.isUnbound with
    | false => exact permits_of_isUnbound hunbound
    | true =>
        obtain ⟨use, name, hroot, hnone, rfl⟩ := Location.complaint_of_write herror hunbound
        exact permits_complaint (hready.ne (hlocation.2 name hroot) hnone)

theorem value {names : List String} {locate : Eval Location} (hready : account.Ready scope names)
    (h : account.Keeps free scope locate (account.Locates names)) :
    account.Keeps free scope (Eval.value locate) account.value :=
  bind h fun _ _ hleads hlocation => read (hready.leads hleads) hlocation

end Keeps

/-- Calls of functions that may be called lead on, and change nothing in the frames around. -/
def Answers (account : Account) (invoke : Invoke) : Prop :=
  ∀ free scope decl frame arguments, account.function scope decl frame →
    (∀ argument ∈ arguments, account.value scope argument) →
    account.Keeps free scope (invoke decl frame arguments) account.value

theorem keeps_apply (hinvoke : account.Answers invoke) {name : String} {callee : Value}
    {arguments : List Value} (hcallee : account.value scope callee)
    (harguments : ∀ argument ∈ arguments, account.value scope argument) :
    account.Keeps free scope (Eval.apply host invoke name callee arguments) account.value := by
  cases callee with
  | builtin native => exact Keeps.native native arguments
  | function decl frame => exact hinvoke free scope decl frame arguments hcallee harguments
  | _ => exact Keeps.fail (permits_of_isUnbound rfl)

mutual

/-- Finding the location of an expression. -/
theorem keeps_locate (hinvoke : account.Answers invoke) : (expr : Expr) → (scope : Scope Value) →
    account.Ready scope expr.mentions →
    account.Keeps free scope (Eval.locate host invoke expr) (account.Locates expr.mentions)
  | .int _ _, scope, _ | .float _ _, scope, _ | .string _ _, scope, _ | .bool _ _, scope, _ =>
    Keeps.pure ⟨(account.hereditary scope).plain _ rfl, fun _ hroot => nomatch hroot⟩
  | .name _ _, _, _ =>
    Keeps.pure ⟨trivial, fun _ hroot => by simpa [Location.root?, eq_comm] using hroot⟩
  | .array elements _, scope, hready => by
      refine Keeps.bind (keeps_evaluateAll hinvoke elements scope hready)
        fun next values _ hvalues => ?_
      exact Keeps.pure ⟨((account.hereditary next).array values).mpr hvalues,
        fun _ hroot => nomatch hroot⟩
  | .subscript base index _, scope, hready => by
      rw [Expr.mentions_subscript] at hready ⊢
      obtain ⟨hbase, hindex⟩ := ready_append.mp hready
      refine Keeps.bind (keeps_locate hinvoke base scope hbase) ?_
      intro next location hleads hlocation
      refine Keeps.bind (Keeps.value (hindex.leads hleads)
        (keeps_locate hinvoke index next (hindex.leads hleads))).integer ?_
      intro last place hlast _
      exact Keeps.pure ⟨location_leads hlast hlocation.1,
        fun name hroot => List.mem_append_left _ (hlocation.2 name hroot)⟩
  | .call callee _ arguments _, scope, hready => by
      have harguments : account.Ready scope (Expr.mentionsAll arguments) :=
        fun name hmem => hready name (List.mem_cons_of_mem _ hmem)
      -- The callee is looked up before the arguments are evaluated, and stays known.
      refine Keeps.bind Keeps.lookup ?_
      rintro _ found hleads ⟨rfl, hsound, hfound⟩
      cases found with
      | none =>
          have hother := hready.ne List.mem_cons_self hfound.symm
          have hpermits : account.Permits (.fault (Use.call.complaint callee)) :=
            permits_complaint hother
          exact Keeps.fail hpermits
      | some function =>
          have hfunction := hsound.get (hready callee List.mem_cons_self).1 hfound.symm
          refine Keeps.bind (keeps_evaluateAll hinvoke arguments _ harguments)
            fun next values hnext hvalues => ?_
          refine Keeps.bind (keeps_apply hinvoke (value_leads hnext hfunction) hvalues)
            fun last result _ hresult => ?_
          exact Keeps.pure ⟨hresult, fun _ hroot => nomatch hroot⟩
  | .binary _ left right _, scope, hready => by
      rw [Expr.mentions_binary] at hready
      obtain ⟨hleft, hright⟩ := ready_append.mp hready
      refine Keeps.bind (Keeps.value hleft (keeps_locate hinvoke left scope hleft))
        fun next first hleads hfirst => ?_
      refine Keeps.bind (Keeps.value (hright.leads hleads)
        (keeps_locate hinvoke right next (hright.leads hleads))) fun last second hlast hsecond => ?_
      refine Keeps.bind (Keeps.ofOperator (value_leads hlast hfirst) hsecond)
        fun _ result _ hresult => ?_
      exact Keeps.pure ⟨hresult, fun _ hroot => nomatch hroot⟩
  | .assign target source _, scope, hready => by
      rw [Expr.mentions_assign] at hready
      obtain ⟨htarget, hsource⟩ := ready_append.mp hready
      refine Keeps.bind (keeps_locate hinvoke target scope htarget)
        fun next location hleads hlocation => ?_
      refine Keeps.bind (Keeps.value (hsource.leads hleads)
        (keeps_locate hinvoke source next (hsource.leads hleads))) ?_
      intro last result hlast hresult
      refine Keeps.bind (Keeps.write ((htarget.leads hleads).leads hlast)
        ⟨location_leads hlast hlocation.1, hlocation.2⟩ hresult) fun final _ _ _ => ?_
      exact Keeps.pure ⟨(account.hereditary final).plain _ rfl, fun _ hroot => nomatch hroot⟩

/-- Evaluating expressions. -/
theorem keeps_evaluateAll (hinvoke : account.Answers invoke) : (exprs : List Expr) →
    (scope : Scope Value) → account.Ready scope (Expr.mentionsAll exprs) →
    account.Keeps free scope (Eval.evaluateAll host invoke exprs)
      fun next values => ∀ value ∈ values, account.value next value
  | [], _, _ => Keeps.pure (by simp)
  | expr :: exprs, scope, hready => by
      rw [Expr.mentionsAll_cons] at hready
      obtain ⟨hexpr, hexprs⟩ := ready_append.mp hready
      refine Keeps.bind (Keeps.value hexpr (keeps_locate hinvoke expr scope hexpr))
        fun next first hleads hfirst => ?_
      refine Keeps.bind (keeps_evaluateAll hinvoke exprs next (hexprs.leads hleads))
        fun last others hlast hothers => ?_
      exact Keeps.pure (by simpa using ⟨value_leads hlast hfirst, hothers⟩)

end

/-- Evaluating an expression. -/
theorem keeps_evaluate (hinvoke : account.Answers invoke) {expr : Expr}
    (hready : account.Ready scope expr.mentions) :
    account.Keeps free scope (Eval.evaluate host invoke expr) account.value :=
  Keeps.value hready (keeps_locate hinvoke expr scope hready)

/-! ### Statements -/

/-- The statement itself, apart from those in its blocks, may run. -/
structure Admits (account : Account) (free : Prop) (stmt : Stmt) : Prop where
  exprs : ∀ expr ∈ stmt.exprs, ∀ name ∈ expr.mentions, account.visible name
  decl : ∀ decl, stmt = .function decl → account.allows decl
  declared : stmt.declared? = some account.name → free

/-- What is known of the value that a statement returns, if it returns one. -/
def flow (account : Account) (scope : Scope Value) : Flow → Prop :=
  Flow.Holds (account.value scope)

/-- What is known behind a statement: if it was run to its end, whether the name is bound. -/
structure Ends (account : Account) (bound : Bool) (scope : Scope Value) (flow : Flow) : Prop where
  value : account.flow scope flow
  knows : flow = .normal → account.Knows bound scope

theorem Ends.weaken {later : Bool} {flow : Flow} (h : account.Ends bound scope flow)
    (himp : later = true → bound = true) : account.Ends later scope flow :=
  ⟨h.value, fun hnormal hsure hlater => h.knows hnormal hsure (himp hlater)⟩

theorem ready_of_covers {expr : Expr} (hvisible : ∀ name ∈ expr.mentions, account.visible name)
    (hcovers : account.sure → expr.covers account.name bound = true)
    (hknows : account.Knows bound scope) : account.Ready scope expr.mentions := by
  refine fun name hmem => ⟨hvisible name hmem, ?_⟩
  rintro hsure rfl
  apply hknows hsure
  simpa [Expr.covers, hmem] using hcovers hsure

namespace Keeps

/-- Behind an action nothing is forgotten about the name. -/
theorem ends {action : Eval Flow} (h : account.Keeps free scope action account.flow)
    (hknows : account.Knows bound scope) : account.Keeps free scope action (account.Ends bound) :=
  Eval.Ensures.imp h fun _ _ hm => ⟨hm.1, hm.2.1, hm.2.2, fun _ => hknows.leads hm.1⟩

theorem andThen {first second : Eval Flow} {good : Scope Value → Flow → Prop}
    (hfirst : account.Keeps free scope first (account.Ends bound))
    (hsecond : ∀ next, scope.Leads account.name free next → account.Knows bound next →
      account.Keeps free next second good)
    (hreturned : ∀ next value, account.flow next (.returned value) → good next (.returned value)) :
    account.Keeps free scope (Eval.andThen first second) good := by
  refine bind hfirst fun next flow hleads hflow => ?_
  cases flow with
  | normal => exact hsecond next hleads (hflow.knows rfl)
  | returned value => exact pure (hreturned next value hflow.value)

theorem choose {condition : Eval Bool} {yes no : Eval Flow} {good : Scope Value → Flow → Prop}
    (hcondition : account.Keeps free scope condition Any)
    (hyes : ∀ next, scope.Leads account.name free next → account.Keeps free next yes good)
    (hno : ∀ next, scope.Leads account.name free next → account.Keeps free next no good) :
    account.Keeps free scope (Eval.choose condition yes no) good := by
  refine bind hcondition fun next flag hleads _ => ?_
  cases flag with
  | true => exact hyes next hleads
  | false => exact hno next hleads

/-- A loop with a condition, whose rounds may begin in any scope that the loop leads to. -/
theorem repeatWhile {condition : Eval Bool} {body : Eval Flow}
    (hcondition : ∀ next, scope.Leads account.name free next →
      account.Keeps free next condition Any)
    (hbody : ∀ next, scope.Leads account.name free next →
      account.Keeps free next body account.flow) (fuel : Nat) :
    account.Keeps free scope (Eval.repeatWhile condition body fuel) account.flow := by
  induction fuel generalizing scope with
  | zero => exact fun _ _ => permits_outOfFuel
  | succ fuel ih =>
      refine choose (hcondition scope (Scope.Leads.refl _ _ _)) ?_ fun _ _ => pure trivial
      intro next hleads
      refine andThen ((hbody next hleads).ends knows_false) (fun last hlast _ => ?_) fun _ _ h => h
      have hlast := hleads.trans hlast
      exact ih (fun other hother => hcondition other (hlast.trans hother))
        fun other hother => hbody other (hlast.trans hother)

/-- A loop that counts, whose rounds may begin in any scope that the loop leads to. -/
theorem countFrom {body : Int64 → Eval Flow}
    (hbody : ∀ next number, scope.Leads account.name free next →
      account.Keeps free next (body number) account.flow) (count : Nat) (first : Int64) :
    account.Keeps free scope (Eval.countFrom body count first) account.flow := by
  induction count generalizing scope first with
  | zero => exact pure trivial
  | succ count ih =>
      refine andThen ((hbody scope first (Scope.Leads.refl _ _ _)).ends knows_false)
        (fun next hleads _ => ?_) fun _ _ h => h
      exact ih (fun other number hother => hbody other number (hleads.trans hother)) _

end Keeps

mutual

/-- Running a statement. -/
theorem keeps_stmt (hinvoke : account.Answers invoke) (fuel : Nat) : (stmt : Stmt) →
    (bound : Bool) → (scope : Scope Value) →
    (account.sure → stmt.covers account.name bound = true) → account.Knows bound scope →
    (∀ part ∈ stmt.parts, account.Admits free part) →
    account.Keeps free scope (Eval.stmt host invoke fuel stmt)
      (account.Ends (bound || stmt.binds account.name))
  | .function decl, bound, scope, hcovers, hknows, hparts => by
      have hself := hparts (.function decl) (by simp [Stmt.parts])
      refine Keeps.bind (Keeps.declare (fun hname => hself.declared (congrArg some hname))
        (hself.decl decl rfl) hcovers hknows) fun next _ _ hbound => ?_
      exact Keeps.pure ⟨trivial, fun _ => hbound⟩
  | .ret value span, bound, scope, hcovers, hknows, hparts => by
      have hself := hparts (.ret value span) (by simp [Stmt.parts])
      have hready := ready_of_covers (hself.exprs value (by simp [Stmt.exprs])) hcovers hknows
      refine Keeps.bind (keeps_evaluate hinvoke hready) fun next result _ hresult => ?_
      exact Keeps.pure ⟨hresult, fun hnormal => nomatch hnormal⟩
  | .bind name value span, bound, scope, hcovers, hknows, hparts => by
      have hself := hparts (.bind name value span) (by simp [Stmt.parts])
      have hready := ready_of_covers (hself.exprs value (by simp [Stmt.exprs])) hcovers hknows
      refine Keeps.bind (keeps_evaluate hinvoke hready) fun next result hleads hresult => ?_
      refine Keeps.bind (Keeps.insert (fun hname => hself.declared (congrArg some hname))
        hresult) fun last _ hlast hbound => ?_
      exact Keeps.pure ⟨trivial, fun _ => ((hknows.leads hleads).leads hlast).or hbound⟩
  | .expr value, bound, scope, hcovers, hknows, hparts => by
      have hself := hparts (.expr value) (by simp [Stmt.parts])
      have hready := ready_of_covers (hself.exprs value (by simp [Stmt.exprs])) hcovers hknows
      refine Keeps.bind (keeps_evaluate hinvoke hready) fun next _ hleads _ => ?_
      refine Keeps.pure ⟨trivial, fun _ => ?_⟩
      rw [Stmt.binds, Bool.or_false]
      exact hknows.leads hleads
  | .branch ⟨condition, body, span⟩ others otherwise, bound, scope, hcovers, hknows, hparts => by
      have hself := hparts _ (List.mem_cons_self ..)
      simp only [Stmt.covers, Bool.and_eq_true] at hcovers
      simp only [Stmt.parts, List.mem_cons, List.mem_append, forall_eq_or_imp] at hparts
      have hready := ready_of_covers (hself.exprs condition (by simp [Stmt.exprs]))
        (fun hsure => (hcovers hsure).1.1.1) hknows
      refine Keeps.choose (Keeps.truth (keeps_evaluate hinvoke hready)) ?_ ?_
      · intro next hleads
        refine (keeps_block hinvoke fuel body bound next (fun hsure => (hcovers hsure).1.1.2)
          (hknows.leads hleads) fun part hmem => hparts.2 part (.inl (.inl hmem))).imp ?_
        intro _ _ hends
        refine hends.weaken ?_
        simp only [Stmt.binds, Bool.or_eq_true, Bool.and_eq_true]
        exact Or.imp_right (·.1.1)
      · intro next hleads
        refine (keeps_arms hinvoke fuel others bound next (fun hsure => (hcovers hsure).1.2)
          (hknows.leads hleads)
          (fun arm hmem => hself.exprs arm.condition
            (List.mem_cons_of_mem _ (List.mem_map_of_mem hmem)))
          (fun part hmem => hparts.2 part (.inl (.inr hmem)))
          fun last hknows => keeps_lastBlock hinvoke fuel otherwise bound last
            (fun hsure => (hcovers hsure).2) hknows
            fun part hmem => hparts.2 part (.inr hmem)).imp ?_
        intro _ _ hends
        refine hends.weaken ?_
        simp only [Stmt.binds, Bool.or_eq_true, Bool.and_eq_true]
        exact Or.imp_right fun h => ⟨h.1.2, h.2⟩
  | .loop condition body span, bound, scope, hcovers, hknows, hparts => by
      have hself := hparts _ (List.mem_cons_self ..)
      simp only [Stmt.covers, Bool.and_eq_true] at hcovers
      rw [Stmt.binds, Bool.or_false]
      refine Keeps.ends (Keeps.repeatWhile ?_ ?_ fuel) hknows
      · intro next hleads
        exact Keeps.truth (keeps_evaluate hinvoke (ready_of_covers
          (hself.exprs condition (by simp [Stmt.exprs])) (fun hsure => (hcovers hsure).1)
          (hknows.leads hleads)))
      · intro next hleads
        exact (keeps_block hinvoke fuel body bound next (fun hsure => (hcovers hsure).2)
          (hknows.leads hleads) fun part hmem => hparts part (List.mem_cons_of_mem _ hmem)).imp
          fun _ _ hends => hends.value
  | .range counter lower upper body span, bound, scope, hcovers, hknows, hparts => by
      have hself := hparts _ (List.mem_cons_self ..)
      simp only [Stmt.covers, Bool.and_eq_true] at hcovers
      rw [Stmt.binds, Bool.or_false]
      refine Keeps.bind (Keeps.integer (keeps_evaluate hinvoke (ready_of_covers
        (hself.exprs lower (by simp [Stmt.exprs])) (fun hsure => (hcovers hsure).1.1) hknows)))
        fun next first hleads _ => ?_
      refine Keeps.bind (Keeps.integer (keeps_evaluate hinvoke (ready_of_covers
        (hself.exprs upper (by simp [Stmt.exprs])) (fun hsure => (hcovers hsure).1.2)
        (hknows.leads hleads)))) fun last final hlast _ => ?_
      have hlater := (hknows.leads hleads).leads hlast
      refine Keeps.ends (Keeps.countFrom (fun round number hround => ?_) _ _) hlater
      -- Every round binds the counter anew and then runs the body.
      refine Keeps.bind (Keeps.insert (fun hname => hself.declared (congrArg some hname))
        ((account.hereditary round).plain (.int number) rfl)) fun inner _ hinner hbound => ?_
      refine (keeps_block hinvoke fuel body (bound || counter == account.name) inner
        (fun hsure => (hcovers hsure).2) (((hlater.leads hround).leads hinner).or hbound)
        fun part hmem => hparts part (List.mem_cons_of_mem _ hmem)).imp fun _ _ hends => hends.value
  | .block inner, bound, scope, hcovers, hknows, hparts =>
    keeps_block hinvoke fuel inner bound scope hcovers hknows
      fun part hmem => hparts part (List.mem_cons_of_mem _ hmem)

theorem keeps_arms (hinvoke : account.Answers invoke) (fuel : Nat) {last : Eval Flow}
    {final : Bool} : (arms : List (Arm Stmt)) → (bound : Bool) → (scope : Scope Value) →
    (account.sure → Stmt.coversArms account.name bound arms = true) → account.Knows bound scope →
    (∀ arm ∈ arms, ∀ name ∈ arm.condition.mentions, account.visible name) →
    (∀ part ∈ Stmt.partsOfArms arms, account.Admits free part) →
    (∀ next, account.Knows bound next →
      account.Keeps free next last (account.Ends (bound || final))) →
    account.Keeps free scope (Eval.arms host invoke fuel arms last)
      (account.Ends (bound || (Stmt.bindsArms account.name arms && final)))
  | [], bound, scope, _, hknows, _, _, hlast => by
      rw [Stmt.bindsArms, Bool.true_and]
      exact hlast scope hknows
  | ⟨condition, body, _⟩ :: others, bound, scope, hcovers, hknows, hconditions, hparts, hlast => by
      simp only [Stmt.coversArms, Bool.and_eq_true] at hcovers
      simp only [Stmt.partsOfArms, List.mem_append] at hparts
      simp only [List.mem_cons, forall_eq_or_imp] at hconditions
      have hready := ready_of_covers hconditions.1 (fun hsure => (hcovers hsure).1.1) hknows
      refine Keeps.choose (Keeps.truth (keeps_evaluate hinvoke hready)) ?_ ?_
      · intro next hleads
        refine (keeps_block hinvoke fuel body bound next (fun hsure => (hcovers hsure).1.2)
          (hknows.leads hleads) fun part hmem => hparts part (.inl hmem)).imp ?_
        intro _ _ hends
        refine hends.weaken ?_
        simp only [Stmt.bindsArms, Bool.or_eq_true, Bool.and_eq_true]
        exact Or.imp_right (·.1.1)
      · intro next hleads
        refine (keeps_arms hinvoke fuel others bound next (fun hsure => (hcovers hsure).2)
          (hknows.leads hleads) hconditions.2 (fun part hmem => hparts part (.inr hmem))
          hlast).imp ?_
        intro _ _ hends
        refine hends.weaken ?_
        simp only [Stmt.bindsArms, Bool.or_eq_true, Bool.and_eq_true]
        exact Or.imp_right fun h => ⟨h.1.2, h.2⟩

theorem keeps_lastBlock (hinvoke : account.Answers invoke) (fuel : Nat) :
    (last : Option (Block Stmt)) → (bound : Bool) → (scope : Scope Value) →
    (account.sure → Stmt.coversLast account.name bound last = true) → account.Knows bound scope →
    (∀ part ∈ Stmt.partsOfLast last, account.Admits free part) →
    account.Keeps free scope (Eval.lastBlock host invoke fuel last)
      (account.Ends (bound || Stmt.bindsLast account.name last))
  | some inner, bound, scope, hcovers, hknows, hparts =>
    keeps_block hinvoke fuel inner bound scope hcovers hknows hparts
  | none, bound, scope, _, hknows, _ =>
    Keeps.ends (Keeps.pure trivial) (by rwa [Stmt.bindsLast, Bool.or_false])

theorem keeps_block (hinvoke : account.Answers invoke) (fuel : Nat) : (block : Block Stmt) →
    (bound : Bool) → (scope : Scope Value) →
    (account.sure → Stmt.coversBlock account.name bound block = true) →
    account.Knows bound scope →
    (∀ part ∈ Stmt.partsOfBlock block, account.Admits free part) →
    account.Keeps free scope (Eval.block host invoke fuel block)
      (account.Ends (bound || Stmt.bindsBlock account.name block))
  | ⟨body, _⟩, bound, scope, hcovers, hknows, hparts =>
    keeps_stmts hinvoke fuel body bound scope hcovers hknows hparts

/-- Running statements in a row. -/
theorem keeps_stmts (hinvoke : account.Answers invoke) (fuel : Nat) : (stmts : List Stmt) →
    (bound : Bool) → (scope : Scope Value) →
    (account.sure → Stmt.coversAll account.name bound stmts = true) → account.Knows bound scope →
    (∀ part ∈ Stmt.partsOfAll stmts, account.Admits free part) →
    account.Keeps free scope (Eval.stmts host invoke fuel stmts)
      (account.Ends (bound || Stmt.bindsAll account.name stmts))
  | [], bound, scope, _, hknows, _ =>
    Keeps.ends (Keeps.pure trivial) (by rwa [Stmt.bindsAll, Bool.or_false])
  | stmt :: stmts, bound, scope, hcovers, hknows, hparts => by
      simp only [Stmt.coversAll, Bool.and_eq_true] at hcovers
      simp only [Stmt.partsOfAll, List.mem_append] at hparts
      rw [Stmt.bindsAll, ← Bool.or_assoc]
      refine Keeps.andThen (keeps_stmt hinvoke fuel stmt bound scope
        (fun hsure => (hcovers hsure).1) hknows fun part hmem => hparts part (.inl hmem)) ?_ ?_
      · intro next _ hbound
        exact keeps_stmts hinvoke fuel stmts _ next (fun hsure => (hcovers hsure).2) hbound
          fun part hmem => hparts part (.inr hmem)
      · exact fun _ _ hvalue => ⟨hvalue, fun hnormal => nomatch hnormal⟩

end

/-! ### Calls -/

/-- Nothing is asked of the statements of a body if all names may be mentioned and all functions
declared. -/
theorem admits_of_unlimited (hvisible : ∀ name, account.visible name)
    (hallows : ∀ decl, account.allows decl) (stmt : Stmt) : account.Admits True stmt :=
  ⟨fun _ _ name _ => hvisible name, fun decl _ => hallows decl, fun _ => trivial⟩

/-- Binding the arguments of a call leads on, and binds all parameters. -/
theorem leads_bindArguments {parameters : List Parameter} {arguments : List Value}
    {machine : Machine} (hlength : arguments.length = parameters.length)
    (hsound : account.Sound machine.scope)
    (harguments : ∀ argument ∈ arguments, account.value machine.scope argument) :
    machine.scope.Leads account.name True (Eval.bindArguments parameters arguments machine).scope ∧
      account.Sound (Eval.bindArguments parameters arguments machine).scope ∧
      account.Knows (parameters.any (·.name == account.name))
        (Eval.bindArguments parameters arguments machine).scope := by
  induction parameters generalizing arguments machine with
  | nil => exact ⟨Scope.Leads.refl _ _ _, hsound, knows_false⟩
  | cons parameter parameters ih =>
      cases arguments with
      | nil => cases hlength
      | cons argument arguments =>
          have hargument := harguments argument List.mem_cons_self
          have hleads : machine.scope.Leads account.name True
              (machine.scope.insert parameter.name argument) := Scope.Leads.insert fun _ => trivial
          have hbound : account.Sound (machine.insert parameter.name argument).scope :=
            hsound.insertIn hleads (value_leads hleads hargument)
          obtain ⟨hrest, hfinal, hknows⟩ := ih (Nat.succ.inj hlength) hbound fun other hmem =>
            value_leads hleads (harguments other (List.mem_cons_of_mem _ hmem))
          refine ⟨hleads.trans hrest, hfinal, ?_⟩
          rw [List.any_cons]
          exact ((knows_insert machine.scope parameter.name argument).leads hrest).or hknows

/-- Running the body of a function in the frame pushed for it. -/
theorem keeps_body (hinvoke : account.Answers invoke) (fuel : Nat) {decl : FnDecl Stmt}
    {arguments : List Value} (hlength : arguments.length = decl.parameters.length)
    (harguments : ∀ argument ∈ arguments, account.value scope argument)
    (hcovers : account.sure → decl.covers account.name bound = true)
    (hknows : account.Knows bound scope) (hparts : ∀ stmt, account.Admits True stmt) :
    account.Keeps True scope (Eval.body host invoke fuel decl arguments) account.flow := by
  have hbind : account.Keeps True scope (Eval.change (Eval.bindArguments decl.parameters arguments))
      fun next _ => account.Knows (decl.parameters.any (·.name == account.name)) next := by
    rintro machine ⟨rfl, hsound⟩
    exact leads_bindArguments hlength hsound harguments
  refine Keeps.bind hbind fun next _ hleads hbound => ?_
  exact (keeps_block hinvoke fuel decl.body _ next hcovers ((hknows.leads hleads).or hbound)
    fun part _ => hparts part).imp fun _ _ hends => hends.value

/-- A sound scope is sound again after a push. -/
theorem Sound.push (h : account.Sound scope) {parent : FrameId}
    (hfits : account.fits (scope.push parent none)) :
    account.Sound (scope.push parent none) where
  fits := hfits
  values := by
    intro id name found hvisible hfound
    rw [Scope.getIn?, Scope.bindingsOf_pushed] at hfound
    exact Value.Functions.imp (fun _ _ => account.enter) found
      (h.values id name found hvisible hfound)

theorem value_pop {inner outer : Scope Value} (hfits : account.fits inner)
    (hpop : inner.pop = .ok outer) {found : Value} (h : account.value inner found) :
    account.value outer found :=
  Value.Functions.imp (fun _ _ => account.leave hfits hpop) found h

/-- A sound scope is sound again after the pop of a frame that was pushed before. -/
theorem Sound.pop {inner outer : Scope Value} (h : account.Sound inner)
    (hpop : inner.pop = .ok outer) (hfits : account.fits outer) : account.Sound outer where
  fits := hfits
  values := by
    intro id name found hvisible hfound
    have hinner := h.values id name found hvisible (Scope.getIn?_of_pop hpop hfound)
    exact value_pop h.fits hpop hinner

/-- Calls lead on if the calls inside them do. -/
theorem answers_call (hinvoke : account.Answers invoke)
    (hframes : ∀ scope, (Discipline.frames scope).Governs invoke) (fuel : Nat) :
    account.Answers (Eval.call host invoke fuel) := by
  intro free scope decl frame arguments hfunction harguments
  refine Eval.Ensures.call (fun _ _ _ => permits_of_isUnbound rfl)
    (fun _ _ _ => permits_of_isUnbound rfl) ?_
  rintro machine parent ⟨rfl, hsound⟩ hlength hresolve
  obtain ⟨hvisible, hallows, hfits, bound, hcovers, hknows⟩ :=
    account.callee hsound.fits hfunction hresolve
  have hpushed : ∀ argument ∈ arguments,
      account.value (machine.scope.push parent none) argument := fun argument hmem =>
    Value.Functions.imp (fun _ _ => account.enter) argument (harguments argument hmem)
  have hbody : account.Keeps True (machine.scope.push parent none)
      (Eval.body host invoke fuel decl arguments) account.flow :=
    keeps_body hinvoke fuel hlength hpushed hcovers hknows (admits_of_unlimited hvisible hallows)
  -- That the pop succeeds is known from the frames, what is left after it from the account.
  have hpops := Eval.body_popsPushed host hframes fuel decl arguments machine parent
  refine (hpops.and hbody).weaken ?_ ?_ ?_
  · rintro _ rfl
    exact ⟨rfl, rfl, hsound.push hfits⟩
  · rintro flow inner ⟨⟨outer, houter⟩, hleads, hinner, hflow⟩
    have houterLeads : machine.scope.Leads account.name free outer := hleads.pop houter.pop
    have hfinal := hinner.pop houter.pop (account.leads houterLeads hsound.fits)
    refine ⟨outer, houter.pop, houterLeads, hfinal, ?_⟩
    cases flow with
    | normal => exact trivial
    | returned result => exact value_pop hinner.fits houter.pop hflow
  · rintro halt inner ⟨⟨⟨outer, houter⟩, -⟩, hpermits⟩
    exact ⟨outer, houter.pop, hpermits⟩

/-- By induction on the depth of calls: calls lead on. -/
theorem answers_callWithin (host : Host) (depth : Nat) :
    account.Answers (Eval.callWithin host depth) := by
  induction depth with
  | zero => exact fun _ _ _ _ _ _ _ _ _ => permits_outOfFuel
  | succ depth ih => exact answers_call ih (Eval.governs_callWithin host depth) depth

end Account

end Quill
