import Quill.Proofs.Binding.Complaints
import Quill.Proofs.Binding.Coverage
import Quill.Proofs.Binding.Reach
import Quill.Proofs.Closures.History

/-!
# A name that is followed through a run

An account follows one name through a run.  It says what is known of the scopes that the run goes
through and of the functions that may be called there, such that single steps keep to it.  This
module gives the rules by which actions that keep to an account are put together.
-/

namespace Quill

/-- What is known about a name in a run. -/
structure Account where
  /-- The name that is followed. -/
  name : String
  /-- Whether complaints about the name are ruled out. -/
  sure : Prop
  /-- The names that may be mentioned. -/
  visible : String → Prop
  /-- The functions that may be declared. -/
  allows : FnDecl Stmt → Prop
  /-- The scopes that the run may go through. -/
  fits : Scope Value → Prop
  /-- The functions that may be called from a scope. -/
  function : Scope Value → FnDecl Stmt → FrameHandle → Prop
  leads : ∀ {free scope next}, scope.Leads name free next → fits scope → fits next
  known : ∀ {free scope next decl frame}, scope.Leads name free next →
    function scope decl frame → function next decl frame
  declare : ∀ {scope decl bound}, fits scope → allows decl →
    (sure → decl.covers name bound = true) →
    (sure → bound = true → (scope.get? name).isSome = true) →
    function scope decl scope.currentHandle
  /-- A function that may be called is in order, and its body is not limited in any way. -/
  callee : ∀ {scope decl frame parent}, fits scope → function scope decl frame →
    scope.resolve frame = some parent →
    (∀ name, visible name) ∧ (∀ decl, allows decl) ∧ fits (scope.push parent none) ∧
      ∃ bound, (sure → decl.covers name bound = true) ∧
        (sure → bound = true → ((scope.push parent none).get? name).isSome = true)
  enter : ∀ {scope decl frame parent}, function scope decl frame →
    function (scope.push parent none) decl frame
  leave : ∀ {inner outer decl frame}, fits inner → inner.pop = .ok outer →
    function inner decl frame → function outer decl frame

namespace Account

variable {account : Account} {free : Prop} {scope next : Scope Value} {host : Host}
  {invoke : Invoke} {bound : Bool} {α β : Type}

/-- All functions in the value may be called. -/
def value (account : Account) (scope : Scope Value) (value : Value) : Prop :=
  value.Functions (account.function scope)

/-- The scope is one that the run may go through, and it holds functions that may be called. -/
structure Sound (account : Account) (scope : Scope Value) : Prop where
  fits : account.fits scope
  values : ∀ id name value, account.visible name → scope.getIn? id name = some value →
    account.value scope value

/-- The name has a value, if it is known to be bound. -/
def Knows (account : Account) (bound : Bool) (scope : Scope Value) : Prop :=
  account.sure → bound = true → (scope.get? account.name).isSome = true

/-- The reason to stop is no complaint about the name. -/
def Permits (account : Account) (halt : Halt) : Prop :=
  account.sure → ∀ use : Use, halt ≠ .fault (use.complaint account.name)

/-- From the scope, the action leads to a sound one and gives a result with a property. -/
def Keeps (account : Account) (free : Prop) (scope : Scope Value) (action : Eval α)
    (good : Scope Value → α → Prop) : Prop :=
  Eval.Ensures (fun machine => machine.scope = scope ∧ account.Sound scope) action
    (fun result machine => scope.Leads account.name free machine.scope ∧
      account.Sound machine.scope ∧ good machine.scope result)
    (fun halt _ => account.Permits halt)

/-- Nothing is asked of the result. -/
abbrev Any {α : Type} : Scope Value → α → Prop := fun _ _ => True

/-! ### What stays known -/

theorem value_leads (hleads : scope.Leads account.name free next) {found : Value}
    (h : account.value scope found) : account.value next found :=
  Value.Functions.imp (fun _ _ => account.known hleads) found h

theorem location_leads (hleads : scope.Leads account.name free next) {location : Location}
    (h : location.Holds (account.value scope)) : location.Holds (account.value next) := by
  induction location with
  | named name => exact trivial
  | temporary held => exact value_leads hleads h
  | element base index ih => exact ih h

theorem hereditary (account : Account) (scope : Scope Value) :
    Value.Hereditary (account.value scope) :=
  Value.hereditary_functions

theorem Knows.leads (h : account.Knows bound scope) (hleads : scope.Leads account.name free next) :
    account.Knows bound next :=
  fun hsure hbound => hleads.kept.isSome_get? (h hsure hbound)

theorem knows_false : account.Knows false scope :=
  fun _ hbound => nomatch hbound

/-- A name that was bound right now is known to be bound. -/
theorem knows_insert (scope : Scope Value) (name : String) (stored : Value) :
    account.Knows (name == account.name) (scope.insert name stored) := by
  intro _ hname
  rw [← eq_of_beq hname]
  exact Scope.isSome_get?_insert _ _ _

theorem Knows.or {other : Bool} (h : account.Knows bound scope) (h' : account.Knows other scope) :
    account.Knows (bound || other) scope :=
  fun hsure hor => (Bool.or_eq_true_iff.mp hor).elim (h hsure) (h' hsure)

theorem Sound.get (h : account.Sound scope) {name : String} {found : Value}
    (hvisible : account.visible name) (hget : scope.get? name = some found) :
    account.value scope found := by
  obtain ⟨id, -, hid⟩ := Option.bind_eq_some_iff.mp hget
  exact h.values id name found hvisible hid

/-- A scope stays sound if a value made of functions that may be called is bound in it. -/
theorem Sound.insertIn (h : account.Sound scope) {id : FrameId} {name : String} {stored : Value}
    (hleads : scope.Leads account.name free (scope.insertIn id name stored))
    (hstored : account.value (scope.insertIn id name stored) stored) :
    account.Sound (scope.insertIn id name stored) where
  fits := account.leads hleads h.fits
  values := by
    intro other asked found hvisible hfound
    rcases Scope.getIn?_insertIn hfound with rfl | hold
    · exact hstored
    · exact value_leads hleads (h.values other asked found hvisible hold)

theorem permits_of_isUnbound {fault : Fault} (h : fault.isUnbound = false) :
    account.Permits (.fault fault) := by
  intro _ use heq
  exact Fault.ne_complaint h use account.name (Halt.fault.inj heq)

/-- A complaint about a name is permitted if it is about another one than that which is followed. -/
theorem permits_complaint {use : Use} {name : String}
    (h : account.sure → name ≠ account.name) : account.Permits (.fault (use.complaint name)) := by
  intro hsure other heq
  exact h hsure (Fault.complaint_inj (Halt.fault.inj heq)).2

theorem permits_outOfFuel : account.Permits .outOfFuel :=
  fun _ _ heq => Halt.noConfusion heq

theorem permits_noMain : account.Permits .noMain :=
  fun _ _ heq => Halt.noConfusion heq

/-! ### Rules -/

namespace Keeps

theorem pure {good : Scope Value → α → Prop} {result : α} (h : good scope result) :
    account.Keeps free scope (Pure.pure result) good := by
  rintro machine ⟨rfl, hsound⟩
  exact ⟨Scope.Leads.refl _ _ _, hsound, h⟩

theorem fail {good : Scope Value → α → Prop} {fault : Fault}
    (h : account.Permits (.fault fault)) : account.Keeps free scope (Eval.fail fault) good :=
  fun _ _ => h

/-- One action after another. -/
theorem bind {action : Eval α} {more : α → Eval β} {mid : Scope Value → α → Prop}
    {good : Scope Value → β → Prop} (h : account.Keeps free scope action mid)
    (hmore : ∀ next result, scope.Leads account.name free next → mid next result →
      account.Keeps free next (more result) good) :
    account.Keeps free scope (action >>= more) good := by
  refine Eval.Ensures.bind h fun result => ?_
  rintro machine ⟨hleads, hsound, hmid⟩
  refine (hmore machine.scope result hleads hmid).imp ?_ machine ⟨rfl, hsound⟩
  rintro value final ⟨hfinal, hrest⟩
  exact ⟨hleads.trans hfinal, hrest⟩

theorem imp {action : Eval α} {mid good : Scope Value → α → Prop}
    (h : account.Keeps free scope action mid)
    (himp : ∀ next result, mid next result → good next result) :
    account.Keeps free scope action good :=
  Eval.Ensures.imp h fun result _ hm => ⟨hm.1, hm.2.1, himp _ result hm.2.2⟩

/-- What an action ensures that keeps to the account from every sound scope. -/
theorem ensures {action : Eval α} {good : Scope Value → α → Prop}
    (h : ∀ scope, account.Sound scope → account.Keeps free scope action good) :
    Eval.Ensures (fun machine => account.Sound machine.scope) action
      (fun result machine => account.Sound machine.scope ∧ good machine.scope result)
      (fun halt _ => account.Permits halt) := by
  intro machine hsound
  exact Eval.Ensures.imp (h machine.scope hsound) (fun _ _ hm => hm.2) machine ⟨rfl, hsound⟩

theorem lookup {name : String} :
    account.Keeps free scope (Eval.lookup name)
      fun next found => next = scope ∧ account.Sound scope ∧ found = scope.get? name := by
  rintro machine ⟨rfl, hsound⟩
  exact ⟨Scope.Leads.refl _ _ _, hsound, rfl, hsound, rfl⟩

/-- An operator computes from known values a known one. -/
theorem ofOperator {operator : Operator} {left right : Value}
    (hleft : account.value scope left) (hright : account.value scope right) :
    account.Keeps free scope (Eval.ofExcept (left.apply operator right)) account.value := by
  cases hresult : left.apply operator right with
  | ok result => exact pure ((account.hereditary scope).apply hleft hright hresult)
  | error fault => exact fail (permits_of_isUnbound (Value.isUnbound_of_apply hresult))

theorem truth {action : Eval Value} (h : account.Keeps free scope action account.value) :
    account.Keeps free scope (Eval.truth action) Any := by
  refine bind h fun next found _ _ => ?_
  cases found with
  | bool flag => exact pure trivial
  | _ => exact fail (permits_of_isUnbound (by simp [Fault.isUnbound, Fault.opening, Use.phrase]))

theorem integer {action : Eval Value} (h : account.Keeps free scope action account.value) :
    account.Keeps free scope (Eval.integer action) Any := by
  refine bind h fun next found _ _ => ?_
  cases found with
  | int number => exact pure trivial
  | _ => exact fail (permits_of_isUnbound (by simp [Fault.isUnbound, Fault.opening, Use.phrase]))

/-- A built-in function neither sees nor changes the scope. -/
theorem native (native : Builtin) (arguments : List Value) :
    account.Keeps free scope (Eval.interact (native.run host arguments)) account.value := by
  refine Eval.Ensures.interact ?_ ?_
  · rintro machine result console hok ⟨rfl, hsound⟩
    have hresult := native.run_ensures host arguments machine.console
    rw [hok] at hresult
    exact ⟨Scope.Leads.refl _ _ _, hsound, (account.hereditary _).ofBuiltin native hresult⟩
  · rintro machine fault console herror -
    have hfault := native.run_isUnbound host arguments machine.console
    rw [herror] at hfault
    exact permits_of_isUnbound hfault

/-- Binding a value in the innermost frame. -/
theorem insert {name : String} {stored : Value} (hfree : name = account.name → free)
    (hstored : account.value scope stored) :
    account.Keeps free scope (Eval.change (·.insert name stored))
      fun next _ => account.Knows (name == account.name) next := by
  rintro machine ⟨rfl, hsound⟩
  have hleads : machine.scope.Leads account.name free (machine.scope.insert name stored) :=
    Scope.Leads.insert hfree
  exact ⟨hleads, hsound.insertIn hleads (value_leads hleads hstored),
    knows_insert machine.scope name stored⟩

/-- Declaring a function in the innermost frame. -/
theorem declare {decl : FnDecl Stmt} (hfree : decl.name = account.name → free)
    (hallows : account.allows decl)
    (hcovers : account.sure → (Stmt.function decl).covers account.name bound = true)
    (hknows : account.Knows bound scope) :
    account.Keeps free scope (Eval.change (·.declare decl))
      fun next _ => account.Knows (bound || decl.name == account.name) next := by
  rintro machine ⟨rfl, hsound⟩
  let stored : Value := .function decl machine.scope.currentHandle
  have hleads : machine.scope.Leads account.name free (machine.scope.insert decl.name stored) :=
    Scope.Leads.insert hfree
  have hbound : account.Knows (bound || decl.name == account.name)
      (machine.scope.insert decl.name stored) :=
    (hknows.leads hleads).or (knows_insert machine.scope decl.name stored)
  have hstored : account.value (machine.scope.insert decl.name stored) stored := by
    have hfits := account.leads hleads hsound.fits
    have hfunction := account.declare hfits hallows
      (fun hsure => Stmt.covers_function account.name bound decl ▸ hcovers hsure) hbound
    rwa [hleads.kept.currentHandle_eq] at hfunction
  exact ⟨hleads, hsound.insertIn hleads hstored, hbound⟩

end Keeps

end Account

end Quill
