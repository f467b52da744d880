import Mathlib.Data.List.Induction
import Quill.Proofs.Storage.Rebinding

/-!
# The order of the frames

Numbers of frames are used again after a pop, and a frame knows its parent by such a number only.
Still no parent is ever lost: whatever operations a scope has gone through, as long as each push was
made on a frame that was on the stack, the serial numbers grow from the bottom of the stack to the
top, every parent stands below its child, and under the number of the parent there is still the very
frame that was there when the child was pushed.  So a search through the parents always ends at the
global frame, and the bound that `Scope.chain` puts on it is never used up.
-/

namespace Quill

/-- An operation on a scope. -/
inductive ScopeAction (V : Type) where
  | push (parent : FrameId) (context : Option Ty)
  | pop
  | insert (name : String) (value : V)
  | update (name : String) (value : V)

namespace Scope

variable {V : Type} {scope next start before after : Scope V} {id : FrameId} {name : String}

/-- The scope after an operation; one that fails leaves the scope as it was. -/
def act (scope : Scope V) : ScopeAction V → Scope V
  | .push parent context => scope.push parent context
  | .pop =>
    match scope.pop with
    | .ok outer => outer
    | .error _ => scope
  | .insert name value => scope.insert name value
  | .update name value => (scope.update? name value).getD scope

/-- The scope after operations, one after the other. -/
def acts (scope : Scope V) (actions : List (ScopeAction V)) : Scope V :=
  actions.foldl act scope

/-- The operation is no push, or a push on a frame that is on the stack. -/
def AdmitsNext (scope : Scope V) : ScopeAction V → Prop
  | .push parent _ => parent ≤ scope.current
  | _ => True

/-- Each push among the operations is made on a frame that is on the stack then. -/
def Admits (scope : Scope V) : List (ScopeAction V) → Prop
  | [] => True
  | action :: actions => scope.AdmitsNext action ∧ (scope.act action).Admits actions

instance (scope : Scope V) (action : ScopeAction V) : Decidable (scope.AdmitsNext action) :=
  match action with
  | .push parent _ => inferInstanceAs (Decidable (parent ≤ scope.current))
  | .pop | .insert _ _ | .update _ _ => .isTrue trivial

instance decidableAdmits : (scope : Scope V) → (actions : List (ScopeAction V)) →
    Decidable (scope.Admits actions)
  | _, [] => .isTrue trivial
  | scope, action :: actions =>
    have : Decidable ((scope.act action).Admits actions) :=
      decidableAdmits (scope.act action) actions
    inferInstanceAs (Decidable (_ ∧ _))

/-- A search through a frame and its parents, without any bound: it ends where something is seen, or
at the global frame. -/
inductive Climb {α : Type} (scope : Scope V) (look : FrameId → Option α) :
    FrameId → Option α → Prop
  | here {id : FrameId} {found : α} (seen : look id = some found) : Climb scope look id (some found)
  | up {id : FrameId} {frame : Frame V} {result : Option α} (unseen : look id = none)
    (stands : scope.frame? id = some frame) (parent : Climb scope look frame.parent result) :
    Climb scope look id result
  | top (unseen : look global = none) : Climb scope look global none

/-- The one binding apart, both scopes are the same. -/
structure ChangesOnly (before : Scope V) (id : FrameId) (name : String) (after : Scope V) :
    Prop where
  kept : before.Kept after
  pushed : after.pushed = before.pushed
  bindings : ∀ asked other, (asked, other) ≠ (id, name) →
    after.getIn? asked other = before.getIn? asked other

/-- What operations do to a scope. -/
structure Laws (scope : Scope V) : Prop where
  update_iff : ∀ name value,
    (scope.update? name value).isSome = true ↔ (scope.get? name).isSome = true
  updates : ∀ name value after, scope.update? name value = some after →
    scope.act (.update name value) = after ∧ after.get? name = some value ∧
      ∃ id, scope.find? name = some id ∧ scope.ChangesOnly id name after
  refuses : ∀ name value, scope.update? name value = none →
    scope.act (.update name value) = scope
  inserts : ∀ name value, (scope.insert name value).getLocal? name = some value ∧
    scope.ChangesOnly scope.current name (scope.insert name value)
  pop_iff : scope.pop = .error .popGlobalFrame ↔ scope.depth = 1
  pop_fails : ∀ fault, scope.pop = .error fault → scope.depth = 1 ∧ scope.act .pop = scope

/-- The frame was pushed after the operations `earlier`, and `later` are the operations since then.
At every moment since, the frame was in its place, and in the place of its parent was the frame that
was there at the push. -/
structure PushedIn (start : Scope V) (earlier later : List (ScopeAction V)) (id : FrameId)
    (frame : Frame V) : Prop where
  place : id = (start.acts earlier).current + 1
  serial : frame.serial = (start.acts earlier).pushed + 1
  live : frame.parent ≤ (start.acts earlier).current
  since : ∀ middle, middle <+: later → ∀ now,
    now = start.acts (earlier ++ .push frame.parent frame.context :: middle) →
    now.handle? id = some ⟨id, frame.serial⟩ ∧
      now.handle? frame.parent = (start.acts earlier).handle? frame.parent

/-- The frames are in order after operations. -/
structure Orderly (start : Scope V) (actions : List (ScopeAction V)) : Prop where
  /-- Serial numbers grow from the bottom to the top. -/
  serials : ∀ id id' handle handle', id < id' → (start.acts actions).handle? id = some handle →
    (start.acts actions).handle? id' = some handle' → handle.serial < handle'.serial
  /-- Parents stand below, and are the frames that they were at the push. -/
  parents : ∀ id frame, (start.acts actions).frame? id = some frame → frame.parent < id ∧
    ∃ earlier later, actions = earlier ++ .push frame.parent frame.context :: later ∧
      start.PushedIn earlier later id frame
  /-- Searches end. -/
  find : ∀ name, (start.acts actions).Climb
    (Option.guard fun id => ((start.acts actions).bindingsOf id).contains name)
    (start.acts actions).current ((start.acts actions).find? name)
  context : (start.acts actions).Climb (fun id => ((start.acts actions).frame? id).bind (·.context))
    (start.acts actions).current (start.acts actions).context
  laws : (start.acts actions).Laws

/-! ### One operation -/

theorem acts_concat (scope : Scope V) (actions : List (ScopeAction V)) (action : ScopeAction V) :
    scope.acts (actions ++ [action]) = (scope.acts actions).act action := by
  simp [acts]

theorem admits_concat {actions : List (ScopeAction V)} {action : ScopeAction V} :
    scope.Admits (actions ++ [action]) ↔
      scope.Admits actions ∧ (scope.acts actions).AdmitsNext action := by
  induction actions generalizing scope with
  | nil => simp [Admits, acts]
  | cons first actions ih => simp [Admits, acts, ih, and_assoc]

/-- An operation is a step in the life of the scope, or it changes nothing. -/
theorem act_eq_or_moves (scope : Scope V) (action : ScopeAction V) :
    scope.act action = scope ∨ scope.Moves (scope.act action) := by
  cases action with
  | push parent context => exact .inr (.push parent context)
  | insert name value => exact .inr (.bind _ name value)
  | pop =>
      rw [act]
      cases hpop : scope.pop with
      | ok outer => exact .inr (.pop hpop)
      | error fault => exact .inl rfl
  | update name value =>
      rw [act]
      cases hupdate : scope.update? name value with
      | none => exact .inl rfl
      | some updated =>
          obtain ⟨found, -, rfl⟩ := Option.map_eq_some_iff.mp hupdate
          exact .inr (.bind found name value)

/-- A number of a frame is a number on the stack. -/
theorem le_current_of_frame? {frame : Frame V} (h : scope.frame? id = some frame) :
    id ≤ scope.current := by
  cases id with
  | zero => cases h
  | succ index => exact (Array.getElem?_eq_some_iff.mp h).1

/-- A frame that stays on the stack keeps its handle. -/
theorem Moves.handle?_eq (h : scope.Moves next) (hbefore : id ≤ scope.current)
    (hafter : id ≤ next.current) : next.handle? id = scope.handle? id := by
  cases id with
  | zero => rfl
  | succ index => rw [handle?_succ, handle?_succ, h.getElem?_serials_eq hbefore hafter]

theorem handle?_act {action : ScopeAction V} (hbefore : id ≤ scope.current)
    (hafter : id ≤ (scope.act action).current) :
    (scope.act action).handle? id = scope.handle? id := by
  rcases scope.act_eq_or_moves action with hsame | hmoves
  · rw [hsame]
  · exact hmoves.handle?_eq hbefore hafter

theorem pushed_insertIn (scope : Scope V) (id : FrameId) (name : String) (value : V) :
    (scope.insertIn id name value).pushed = scope.pushed := by
  cases id with
  | zero => rfl
  | succ index => rfl

/-- Serial numbers grow from the bottom to the top; that of the global frame is zero. -/
def Ascending (scope : Scope V) : Prop :=
  (0 :: scope.serials.toList).Pairwise (· < ·)

theorem Ascending.moves (h : scope.Ascending) (hcounted : scope.Counted)
    (hmoves : scope.Moves next) : next.Ascending := by
  cases hmoves with
  | bind id name value =>
      rw [Ascending, serials_insertIn]
      exact h
  | push parent context =>
      rw [Ascending, serials_push, Array.toList_push, ← List.cons_append, List.pairwise_append]
      refine ⟨h, List.pairwise_singleton _ _, fun serial hserial new hnew => ?_⟩
      obtain rfl := List.mem_singleton.mp hnew
      rcases List.mem_cons.mp hserial with rfl | hserial
      · exact Nat.succ_pos _
      · obtain ⟨index, hindex⟩ := List.mem_iff_getElem?.mp hserial
        have hle := hcounted index serial (by simpa using hindex)
        exact Nat.lt_succ_of_le hle
  | pop hpop =>
      rw [Ascending, (serials_pop hpop).1, Array.toList_pop]
      exact h.sublist ((List.dropLast_sublist _).cons_cons 0)

theorem Straight.pop {outer : Scope V} (h : scope.Straight) (hpop : scope.pop = .ok outer) :
    outer.Straight := by
  obtain ⟨-, rfl⟩ := frames_of_pop hpop
  intro index frame hframe
  rw [Array.getElem?_pop] at hframe
  split at hframe
  · exact h index frame hframe
  · cases hframe

/-- The order of the frames of one scope. -/
structure Stacked (scope : Scope V) : Prop where
  ascending : scope.Ascending
  counted : scope.Counted
  straight : scope.Straight

theorem stacked_ofGlobals (globals : List (String × V)) : (ofGlobals globals).Stacked where
  ascending := by simp [Ascending, serials, ofGlobals]
  counted := by simp [Counted, serials, ofGlobals]
  straight := by simp [Straight, ofGlobals]

/-- An operation keeps the order of the frames. -/
theorem Stacked.act {action : ScopeAction V} (h : scope.Stacked)
    (hadmits : scope.AdmitsNext action) : (scope.act action).Stacked := by
  have hstraight : (scope.act action).Straight := by
    cases action with
    | push parent context => exact h.straight.push hadmits context
    | insert name value => exact h.straight.kept (kept_insert scope name value)
    | pop =>
        rw [Scope.act]
        cases hpop : scope.pop with
        | ok outer => exact h.straight.pop hpop
        | error fault => exact h.straight
    | update name value =>
        rw [Scope.act]
        cases hupdate : scope.update? name value with
        | none => exact h.straight
        | some updated => exact h.straight.kept (kept_of_update hupdate)
  rcases scope.act_eq_or_moves action with hsame | hmoves
  · rw [hsame]
    exact h
  · exact ⟨h.ascending.moves h.counted hmoves, h.counted.moves hmoves, hstraight⟩

/-- Operations keep the order of the frames. -/
theorem Stacked.acts {actions : List (ScopeAction V)} (h : start.Stacked)
    (hadmits : start.Admits actions) : (start.acts actions).Stacked := by
  induction actions using List.reverseRecOn with
  | nil => exact h
  | append_singleton actions action ih =>
      rw [admits_concat] at hadmits
      rw [acts_concat]
      exact (ih hadmits.1).act hadmits.2

/-- Serial numbers of frames on the stack are in the order of the frames. -/
theorem Ascending.serial_lt (h : scope.Ascending) {id' : FrameId} {handle handle' : FrameHandle}
    (hlt : id < id') (hhandle : scope.handle? id = some handle)
    (hhandle' : scope.handle? id' = some handle') : handle.serial < handle'.serial := by
  obtain ⟨index', rfl⟩ := Nat.exists_eq_add_one_of_ne_zero (Nat.ne_zero_of_lt hlt)
  have hserial' := serial_of_handle? hhandle'
  rw [← Array.getElem?_toList] at hserial'
  rw [Ascending, List.pairwise_cons] at h
  cases id with
  | zero =>
      cases hhandle
      exact h.1 _ (List.mem_of_getElem? hserial')
  | succ index =>
      have hserial := serial_of_handle? hhandle
      rw [← Array.getElem?_toList] at hserial
      obtain ⟨hbound, hfirst⟩ := List.getElem?_eq_some_iff.mp hserial
      obtain ⟨hbound', hsecond⟩ := List.getElem?_eq_some_iff.mp hserial'
      rw [← hfirst, ← hsecond]
      exact List.pairwise_iff_getElem.mp h.2 index index' hbound hbound'
        (Nat.lt_of_succ_lt_succ hlt)

/-! ### The push of a frame -/

/-- The frame was there before, in the same place. -/
theorem Kept.frame?_before {later : Frame V} (h : before.Kept after)
    (hlater : after.frame? id = some later) :
    ∃ frame, before.frame? id = some frame ∧ frame.Kept later := by
  cases hframe : before.frame? id with
  | none => exact absurd (h.frame?_eq_none hframe) (by simp [hlater])
  | some frame =>
      cases id with
      | zero => cases hframe
      | succ index =>
          obtain ⟨found, hfound, hkept⟩ := h.frame index frame hframe
          obtain rfl : found = later := Option.some.inj (hfound.symm.trans hlater)
          exact ⟨frame, rfl, hkept⟩

/-- A frame on the stack after an operation was there before it, or the operation has pushed it. -/
theorem frame?_act {action : ScopeAction V} {frame : Frame V}
    (h : (scope.act action).frame? id = some frame) :
    (∃ earlier, scope.frame? id = some earlier ∧ earlier.Kept frame) ∨
      action = .push frame.parent frame.context ∧ id = scope.current + 1 ∧
        frame.serial = scope.pushed + 1 := by
  have hrefl : ∀ kept : Scope V, kept.frame? id = some frame →
      ∃ earlier, kept.frame? id = some earlier ∧ earlier.Kept frame :=
    fun kept hframe => ⟨frame, hframe, rfl, rfl, rfl, fun _ hname => hname⟩
  cases action with
  | push parent context =>
      cases id with
      | zero => cases h
      | succ index =>
          simp only [act, frame?, push, Array.getElem?_push] at h
          split at h
          · next hindex =>
            cases h
            exact .inr ⟨rfl, by rw [hindex, current], rfl⟩
          · exact .inl (hrefl scope h)
  | insert name value => exact .inl ((kept_insert scope name value).frame?_before h)
  | pop =>
      rw [act] at h
      cases hpop : scope.pop with
      | error fault =>
          rw [hpop] at h
          exact .inl (hrefl scope h)
      | ok outer =>
          rw [hpop] at h
          have hid : id ≤ outer.current := le_current_of_frame? h
          rw [frame?_popped hpop hid] at h
          exact .inl (hrefl scope h)
  | update name value =>
      rw [act] at h
      cases hupdate : scope.update? name value with
      | none =>
          rw [hupdate] at h
          exact .inl (hrefl scope h)
      | some updated =>
          rw [hupdate] at h
          exact .inl ((kept_of_update hupdate).frame?_before h)

/-- In order, a parent stands below its child. -/
theorem Straight.parent_lt {frame : Frame V} (h : scope.Straight)
    (hframe : scope.frame? id = some frame) : frame.parent < id := by
  cases id with
  | zero => cases hframe
  | succ index => exact Nat.lt_succ_of_le (h index frame hframe)

/-- A frame right after its push. -/
theorem pushedIn_nil {actions : List (ScopeAction V)} {frame : Frame V}
    (hplace : id = (start.acts actions).current + 1)
    (hserial : frame.serial = (start.acts actions).pushed + 1)
    (hlive : frame.parent ≤ (start.acts actions).current) :
    start.PushedIn actions [] id frame := by
  refine ⟨hplace, hserial, hlive, fun middle hmiddle now hnow => ?_⟩
  rw [List.prefix_nil.mp hmiddle, acts_concat] at hnow
  subst hnow
  constructor
  · rw [hplace, act, handle?_succ, serials_push, Array.getElem?_push, size_serials, if_pos rfl,
      hserial]
    rfl
  · refine handle?_act hlive ?_
    rw [act, current_push]
    exact Nat.le_succ_of_le hlive

/-- One more operation that leaves the frame on the stack. -/
theorem PushedIn.concat {earlier later : List (ScopeAction V)} {action : ScopeAction V}
    {frame found : Frame V} (h : start.PushedIn earlier later id frame) (hkept : frame.Kept found)
    (hbelow : frame.parent < id)
    (hbefore : id ≤ (start.acts (earlier ++ .push frame.parent frame.context :: later)).current)
    (hafter : id ≤ ((start.acts (earlier ++ .push frame.parent frame.context :: later)).act
      action).current) :
    start.PushedIn earlier (later ++ [action]) id found := by
  refine ⟨h.place, hkept.serial.trans h.serial, hkept.parent.symm ▸ h.live,
    fun middle hmiddle now hnow => ?_⟩
  rw [hkept.parent, hkept.context] at hnow
  rw [hkept.parent, hkept.serial]
  rcases List.prefix_concat_iff.mp hmiddle with rfl | hmiddle
  · rw [← List.cons_append, ← List.append_assoc, acts_concat] at hnow
    subst hnow
    obtain ⟨hown, hparent⟩ := h.since later (List.prefix_refl later) _ rfl
    have hle := Nat.le_of_lt hbelow
    rw [handle?_act hbefore hafter,
      handle?_act (Nat.le_trans hle hbefore) (Nat.le_trans hle hafter)]
    exact ⟨hown, hparent⟩
  · exact h.since middle hmiddle now hnow

/-- Every frame on the stack was pushed by one of the operations, and has stayed there with its
parent since then. -/
theorem exists_pushedIn {actions : List (ScopeAction V)} {frame : Frame V} (h : start.Stacked)
    (hempty : start.frames = #[]) (hadmits : start.Admits actions)
    (hframe : (start.acts actions).frame? id = some frame) :
    ∃ earlier later, actions = earlier ++ .push frame.parent frame.context :: later ∧
      start.PushedIn earlier later id frame := by
  induction actions using List.reverseRecOn generalizing frame with
  | nil =>
      cases id with
      | zero => cases hframe
      | succ index => simp [acts, frame?, hempty] at hframe
  | append_singleton actions action ih =>
      rw [admits_concat] at hadmits
      rw [acts_concat] at hframe
      rcases frame?_act hframe with ⟨before, hbefore, hkept⟩ | ⟨rfl, hplace, hserial⟩
      · obtain ⟨earlier, later, rfl, hpushed⟩ := ih hadmits.1 hbefore
        have hbelow := (h.acts hadmits.1).straight.parent_lt hbefore
        refine ⟨earlier, later ++ [action], ?_, hpushed.concat hkept hbelow
          (le_current_of_frame? hbefore) (le_current_of_frame? hframe)⟩
        rw [hkept.parent, hkept.context, List.append_assoc, List.cons_append]
      · exact ⟨actions, [], rfl, pushedIn_nil hplace hserial hadmits.2⟩

/-! ### Searching -/

/-- A search from a frame on the stack ends, and finds what is seen first on the chain. -/
theorem Straight.climb {α : Type} (h : scope.Straight) (look : FrameId → Option α) {bound : Nat}
    (hid : id ≤ scope.current) (hbound : id < bound) :
    scope.Climb look id ((scope.chainFrom bound id).findSome? look) := by
  induction bound generalizing id with
  | zero => exact absurd hbound (Nat.not_lt_zero _)
  | succ bound ih =>
      rw [chainFrom]
      cases hlook : look id with
      | some found =>
          cases scope.frame? id with
          | none => simpa [hlook] using Climb.here hlook
          | some frame => simpa [hlook] using Climb.here hlook
      | none =>
          cases hframe : scope.frame? id with
          | some frame =>
              have hbelow := h.parent_lt hframe
              rw [List.findSome?_cons, hlook]
              exact .up hlook hframe (ih (Nat.le_trans (Nat.le_of_lt hbelow) hid)
                (Nat.lt_of_lt_of_le hbelow (Nat.le_of_lt_succ hbound)))
          | none =>
              -- Of the numbers on the stack only that of the global frame has no such frame.
              obtain rfl : id = global := by
                cases id with
                | zero => rfl
                | succ index =>
                    exact absurd (Array.getElem?_eq_none_iff.mp hframe) (Nat.not_le_of_lt hid)
              simpa [hlook] using Climb.top hlook

/-! ### What operations do -/

/-- Binding a name in the innermost frame changes that binding only. -/
theorem changesOnly_insert (scope : Scope V) (name : String) (value : V) :
    scope.ChangesOnly scope.current name (scope.insert name value) := by
  refine ⟨kept_insert scope name value, ?_, fun asked other hother => ?_⟩
  · rw [insert, pushed_insertIn]
  · by_cases hasked : asked = scope.current
    · subst hasked
      have hname : name ≠ other := by
        rintro rfl
        exact hother rfl
      have hlocals := locals_insert scope name value
      rw [locals, (kept_insert scope name value).current_eq] at hlocals
      rw [getIn?, hlocals, getElem?_insert, if_neg hname]
      rfl
    · rw [getIn?, insert, bindingsOf_insertIn_of_ne hasked]
      rfl

/-- Binding a name anew changes the binding that was found only. -/
theorem changesOnly_update (hfind : scope.find? name = some id) (value : V) :
    scope.ChangesOnly id name (scope.insertIn id name value) where
  kept := kept_insertIn scope id name value
  pushed := pushed_insertIn scope id name value
  bindings _ _ hother := getIn?_insertIn_of_ne (mem_of_find? hfind) value hother

theorem getLocal?_insert (scope : Scope V) (name : String) (value : V) :
    (scope.insert name value).getLocal? name = some value := by
  rw [getLocal?, getIn?]
  show (scope.insert name value).locals[name]? = _
  rw [locals_insert, getElem?_insert, if_pos rfl]

/-- Only the global frame cannot be popped. -/
theorem pop_eq_error_iff {fault : Fault} :
    scope.pop = .error fault ↔ fault = .popGlobalFrame ∧ scope.depth = 1 := by
  rw [pop]
  by_cases hempty : scope.frames.isEmpty = true
  · rw [if_pos hempty, Except.error.injEq, depth]
    simp [Array.isEmpty_iff.mp hempty, eq_comm]
  · rw [if_neg hempty, depth]
    simp only [reduceCtorEq, false_iff, not_and]
    rintro - hsize
    exact hempty (Array.isEmpty_iff_size_eq_zero.mpr (by omega))

/-- The laws of the operations hold of every scope. -/
theorem laws (scope : Scope V) : scope.Laws where
  update_iff name value := by
    rw [isSome_get?_iff_find?, update?, Option.isSome_map, Option.isSome_iff_exists]
  updates name value after hupdate := by
    refine ⟨by rw [act, hupdate, Option.getD_some], ?_⟩
    obtain ⟨id, hfind, rfl⟩ := Option.map_eq_some_iff.mp hupdate
    exact ⟨get?_insertIn_self hfind value, id, hfind, changesOnly_update hfind value⟩
  refuses name value hupdate := by rw [act, hupdate, Option.getD_none]
  inserts name value := ⟨getLocal?_insert scope name value, changesOnly_insert scope name value⟩
  pop_iff := by rw [pop_eq_error_iff, eq_self, true_and]
  pop_fails fault hpop := ⟨(pop_eq_error_iff.mp hpop).2, by rw [act, hpop]⟩

/-- Whatever operations a scope goes through from its start, each push among them on a frame that is
on the stack then, its frames are in order: serial numbers grow toward the top, parents stand below
their children and are still the frames that they were at the push, searches end, and each operation
changes what it is for and nothing else. -/
theorem acts_orderly (globals : List (String × V)) (actions : List (ScopeAction V))
    (h : (ofGlobals globals).Admits actions) : (ofGlobals globals).Orderly actions := by
  have hstart := stacked_ofGlobals globals
  have hstacked := hstart.acts h
  constructor
  · intro id id' handle handle' hlt hhandle hhandle'
    exact hstacked.ascending.serial_lt hlt hhandle hhandle'
  · intro id frame hframe
    exact ⟨hstacked.straight.parent_lt hframe, exists_pushedIn hstart rfl h hframe⟩
  · intro name
    have hclimb := hstacked.straight.climb
      (Option.guard fun id => (((ofGlobals globals).acts actions).bindingsOf id).contains name)
      (Nat.le_refl _) (Nat.lt_succ_self _)
    rwa [List.findSome?_guard] at hclimb
  · exact hstacked.straight.climb _ (Nat.le_refl _) (Nat.lt_succ_self _)
  · exact laws _

/-- Operations in which the number of a frame is used again after a pop, and a pop fails at last. -/
def reusingNumbers : List (ScopeAction Nat) :=
  [.push 0 none, .insert "x" 1, .push 1 none, .pop, .push 0 (some .int), .update "x" 2, .pop, .pop,
    .pop, .push 0 none, .push 1 none]

theorem reusingNumbers_orderly :
    (ofGlobals [("x", 0)]).Admits reusingNumbers ∧
      (ofGlobals [("x", 0)]).Orderly reusingNumbers := by
  have hadmits : (ofGlobals [("x", 0)]).Admits reusingNumbers := by decide
  exact ⟨hadmits, acts_orderly [("x", 0)] reusingNumbers hadmits⟩

end Scope

end Quill
