import Quill.Scope

/-!
# The innermost frame of a scope

Most actions change a scope in its innermost frame only.  `withLocals` says so: it puts other names
into that frame and leaves all else, apart from the count of pushes, as it is.
-/

namespace Quill.Scope

variable {V : Type}

/-- The names bound in the innermost frame. -/
def locals (scope : Scope V) : Bindings V :=
  scope.bindingsOf scope.current

/-- The same scope with other names in the innermost frame and another count of pushes. -/
def withLocals (scope : Scope V) (bindings : Bindings V) (pushed : Nat) : Scope V :=
  match scope.frames.size with
  | 0 => { scope with globals := bindings, pushed := pushed }
  | index + 1 =>
    { scope with
      frames := scope.frames.modify index fun frame => { frame with bindings := bindings }
      pushed := pushed }

/-- A scope has the global frame only, or frames below the innermost one and that one. -/
@[elab_as_elim] theorem shapes {motive : Scope V → Prop} (scope : Scope V)
    (global : ∀ globals pushed, motive ⟨globals, #[], pushed⟩)
    (inner : ∀ globals (below : Array (Frame V)) frame pushed,
      motive ⟨globals, below.push frame, pushed⟩) : motive scope := by
  obtain ⟨globals, frames, pushed⟩ := scope
  by_cases hsize : frames.size = 0
  · obtain rfl := Array.eq_empty_of_size_eq_zero hsize
    exact global globals pushed
  · obtain ⟨below, frame, rfl⟩ := Array.eq_push_of_size_ne_zero hsize
    exact inner globals below frame pushed

section Shapes

variable {globals bindings : Bindings V} {below : Array (Frame V)} {frame : Frame V}
  {pushed count : Nat}

theorem modify_push_last (f : Frame V → Frame V) :
    (below.push frame).modify below.size f = below.push (f frame) := by
  refine Array.ext (by simp) fun index hleft hright => ?_
  rw [Array.getElem_modify]
  by_cases hindex : below.size = index
  · simp [← hindex]
  · rw [if_neg hindex]
    simp only [Array.size_push] at hright
    rw [Array.getElem_push_lt (by omega), Array.getElem_push_lt (by omega)]

@[simp] theorem withLocals_global :
    (⟨globals, #[], pushed⟩ : Scope V).withLocals bindings count = ⟨bindings, #[], count⟩ := rfl

@[simp] theorem withLocals_push :
    (⟨globals, below.push frame, pushed⟩ : Scope V).withLocals bindings count =
      ⟨globals, below.push { frame with bindings := bindings }, count⟩ := by
  simp [withLocals, modify_push_last]

@[simp] theorem locals_global : (⟨globals, #[], pushed⟩ : Scope V).locals = globals := rfl

@[simp] theorem locals_push :
    (⟨globals, below.push frame, pushed⟩ : Scope V).locals = frame.bindings := by
  simp [locals, current, bindingsOf]

end Shapes

section Any

variable (scope : Scope V)

@[simp] theorem withLocals_self : scope.withLocals scope.locals scope.pushed = scope := by
  induction scope using shapes with
  | global globals pushed => rfl
  | inner globals below frame pushed => simp

@[simp] theorem withLocals_withLocals (first second : Bindings V) (m n : Nat) :
    (scope.withLocals first m).withLocals second n = scope.withLocals second n := by
  induction scope using shapes with
  | global globals pushed => rfl
  | inner globals below frame pushed => simp

@[simp] theorem current_withLocals (bindings : Bindings V) (count : Nat) :
    (scope.withLocals bindings count).current = scope.current := by
  induction scope using shapes with
  | global globals pushed => rfl
  | inner globals below frame pushed => simp [current]

theorem insert_eq_withLocals (name : String) (value : V) :
    scope.insert name value = scope.withLocals (scope.locals.insert name value) scope.pushed := by
  induction scope using shapes with
  | global globals pushed => rfl
  | inner globals below frame pushed => simp [insert, insertIn, current, modify_push_last]

theorem pop_of_frames {scope : Scope V} {below : Array (Frame V)} {frame : Frame V}
    (h : scope.frames = below.push frame) : scope.pop = .ok { scope with frames := below } := by
  simp [pop, h]

/-- A pop undoes a push and everything that happened in the pushed frame. -/
theorem pop_withLocals_push (parent : FrameId) (context : Option Ty) (bindings : Bindings V)
    (count : Nat) :
    ((scope.push parent context).withLocals bindings count).pop =
      .ok (scope.withLocals scope.locals count) := by
  induction scope using shapes with
  | global globals pushed =>
      simp only [push, withLocals_push, pop]
      simp
  | inner globals below frame pushed =>
      simp only [push, withLocals_push, pop]
      simp

end Any

/-! ### Names that have a value -/

/-- A name can be bound anew just if it has a value. -/
theorem update?_eq_none_iff {scope : Scope V} {name : String} {value : V} :
    scope.update? name value = none ↔ scope.get? name = none := by
  rw [update?, Option.map_eq_none_iff, get?, Option.bind_eq_none_iff]
  constructor
  · intro hnone id hfound
    rw [hnone] at hfound
    cases hfound
  · intro hnone
    cases hfound : scope.find? name with
    | none => rfl
    | some id =>
        have hbound : (scope.bindingsOf id).contains name = true := by
          simpa using List.find?_some hfound
        have hsome := Std.ExtTreeMap.mem_iff_isSome_getElem?.mp
          (Std.ExtTreeMap.contains_iff_mem.mp hbound)
        have hvalue : (scope.bindingsOf id)[name]? = none := hnone id hfound
        rw [hvalue] at hsome
        cases hsome

/-! ### A frame over the global one -/

section OverGlobals

variable {globals : Bindings V} {below : Array (Frame V)} {frame : Frame V} {pushed : Nat}
  {name : String} {value : V}

theorem getElem?_insert (bindings : Bindings V) (name other : String) (value : V) :
    (bindings.insert name value)[other]? =
      if name = other then some value else bindings[other]? := by
  simp only [Std.ExtTreeMap.getElem?_insert, Std.LawfulEqCmp.compare_eq_iff_eq]

theorem mem_insert_iff {bindings : Bindings V} {other : String} :
    other ∈ bindings.insert name value ↔ name = other ∨ other ∈ bindings := by
  rw [Std.ExtTreeMap.mem_insert, Std.LawfulEqCmp.compare_eq_iff_eq]

theorem mem_of_getElem? {bindings : Bindings V} (h : bindings[name]? = some value) :
    name ∈ bindings := by
  rw [Std.ExtTreeMap.mem_iff_isSome_getElem?, h]
  rfl

theorem contains_eq_false {bindings : Bindings V} (h : name ∉ bindings) :
    bindings.contains name = false :=
  Bool.eq_false_iff.mpr fun hcontains => h (Std.ExtTreeMap.contains_iff_mem.mp hcontains)

theorem frame?_push :
    (⟨globals, below.push frame, pushed⟩ : Scope V).frame? (below.size + 1) = some frame := by
  simp [frame?]

theorem bindingsOf_push :
    (⟨globals, below.push frame, pushed⟩ : Scope V).bindingsOf (below.size + 1) =
      frame.bindings := by
  simp [bindingsOf]

/-- Names are looked up in a frame over the global one, and then in the global one. -/
theorem chain_overGlobals (h : frame.parent = global) :
    (⟨globals, below.push frame, pushed⟩ : Scope V).chain = [below.size + 1, global] := by
  simp only [chain, depth, current, Array.size_push, chainFrom, frame?_push]
  rw [h]
  rfl

theorem find?_overGlobals (h : frame.parent = global) :
    (⟨globals, below.push frame, pushed⟩ : Scope V).find? name =
      if name ∈ frame.bindings then some (below.size + 1)
      else if name ∈ globals then some global else none := by
  simp only [find?, chain_overGlobals h, List.find?_cons, bindingsOf_push, List.find?_nil]
  by_cases hlocal : name ∈ frame.bindings
  · rw [if_pos hlocal, Std.ExtTreeMap.contains_iff_mem.mpr hlocal]
  · rw [if_neg hlocal, contains_eq_false hlocal]
    by_cases hglobal : name ∈ globals
    · simp [bindingsOf, global, hglobal, Std.ExtTreeMap.contains_iff_mem.mpr hglobal]
    · simp [bindingsOf, global, hglobal, contains_eq_false hglobal]

theorem get?_overGlobals (h : frame.parent = global) :
    (⟨globals, below.push frame, pushed⟩ : Scope V).get? name =
      frame.bindings[name]?.or globals[name]? := by
  unfold get?
  rw [find?_overGlobals h]
  by_cases hlocal : name ∈ frame.bindings
  · simp [hlocal, getIn?, bindingsOf_push]
  · by_cases hglobal : name ∈ globals
    · simp [hlocal, hglobal, getIn?, bindingsOf, global]
    · simp [hlocal, hglobal]

theorem update?_overGlobals (h : frame.parent = global) :
    (⟨globals, below.push frame, pushed⟩ : Scope V).update? name value =
      if name ∈ frame.bindings then
        some ⟨globals, below.push { frame with bindings := frame.bindings.insert name value },
          pushed⟩
      else if name ∈ globals then
        some ⟨globals.insert name value, below.push frame, pushed⟩
      else none := by
  unfold update?
  rw [find?_overGlobals h]
  by_cases hlocal : name ∈ frame.bindings
  · simp [hlocal, insertIn, modify_push_last]
  · by_cases hglobal : name ∈ globals
    · simp [hlocal, hglobal, insertIn, global]
    · simp [hlocal, hglobal]

theorem insert_push :
    (⟨globals, below.push frame, pushed⟩ : Scope V).insert name value =
      ⟨globals, below.push { frame with bindings := frame.bindings.insert name value },
        pushed⟩ := by
  rw [insert_eq_withLocals]
  simp

theorem get?_global :
    (⟨globals, #[], pushed⟩ : Scope V).get? name = globals[name]? := by
  by_cases hglobal : name ∈ globals
  · simp [get?, find?, chain, depth, current, chainFrom, frame?, bindingsOf, getIn?, hglobal]
  · simp [get?, find?, chain, depth, current, chainFrom, frame?, bindingsOf, getIn?, hglobal]

end OverGlobals
end Quill.Scope
