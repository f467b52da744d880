import Quill.Proofs.Contents

/-!
# Handles over time

The number of a frame is used again after the frame was popped, but its serial number never is.  So
a handle of a frame is good for as long as that frame stays on the stack, and not longer: in a
course of scopes, each one step after the one before, the handle of the innermost frame of a scope
resolves later on exactly if the stack never fell below that frame in between.
-/

namespace Quill.Scope

variable {V : Type} {scope next birth : Scope V}

/-- One step in the life of a scope: a name is bound, or a frame is pushed or popped. -/
inductive Moves (scope : Scope V) : Scope V → Prop
  | bind (id : FrameId) (name : String) (value : V) : Moves scope (scope.insertIn id name value)
  | push (parent : FrameId) (context : Option Ty) : Moves scope (scope.push parent context)
  | pop {outer : Scope V} (popped : scope.pop = .ok outer) : Moves scope outer

/-! ### Serial numbers -/

/-- The serial numbers of the frames above the global one. -/
def serials (scope : Scope V) : Array Nat :=
  scope.frames.map (·.serial)

@[simp] theorem size_serials (scope : Scope V) : scope.serials.size = scope.current := by
  rw [serials, Array.size_map, current]

theorem handle?_succ (scope : Scope V) (index : Nat) :
    scope.handle? (index + 1) = scope.serials[index]?.map fun serial => ⟨index + 1, serial⟩ := by
  rw [handle?, serials, Array.getElem?_map, Option.map_map]
  rfl

theorem serials_insertIn (scope : Scope V) (id : FrameId) (name : String) (value : V) :
    (scope.insertIn id name value).serials = scope.serials := by
  cases id with
  | zero => rfl
  | succ place =>
      apply Array.ext_getElem?
      intro index
      simp only [serials, insertIn, Array.getElem?_map, Array.getElem?_modify]
      split
      · rw [Option.map_map]
        rfl
      · rfl

theorem serials_push (scope : Scope V) (parent : FrameId) (context : Option Ty) :
    (scope.push parent context).serials = scope.serials.push (scope.pushed + 1) := by
  rw [serials, push, Array.map_push]
  rfl

theorem serials_pop {outer : Scope V} (h : scope.pop = .ok outer) :
    outer.serials = scope.serials.pop ∧ outer.pushed = scope.pushed := by
  rw [pop] at h
  split at h
  · cases h
  · cases h
    exact ⟨Array.map_pop, rfl⟩

namespace Moves

/-- The count of pushes never falls. -/
theorem pushed_le (h : scope.Moves next) : scope.pushed ≤ next.pushed := by
  cases h with
  | bind id name value =>
      cases id with
      | zero => exact Nat.le_refl _
      | succ index => exact Nat.le_refl _
  | push parent context => exact Nat.le_succ _
  | pop hpop => exact Nat.le_of_eq (serials_pop hpop).2.symm

/-- A frame that is there before and after a step keeps its serial number. -/
theorem getElem?_serials_eq (h : scope.Moves next) {index : Nat} (hbefore : index < scope.current)
    (hafter : index < next.current) : next.serials[index]? = scope.serials[index]? := by
  cases h with
  | bind id name value => rw [serials_insertIn]
  | push parent context =>
      rw [← size_serials] at hbefore
      rw [serials_push, Array.getElem?_push, if_neg (by omega)]
  | pop hpop =>
      rw [← size_serials, (serials_pop hpop).1, Array.size_pop] at hafter
      rw [(serials_pop hpop).1, Array.getElem?_pop, if_pos hafter]

/-- The serial number of a frame was there before, or it is a new one. -/
theorem getElem?_serials (h : scope.Moves next) {index serial : Nat}
    (hserial : next.serials[index]? = some serial) :
    scope.serials[index]? = some serial ∨
      serial = scope.pushed + 1 ∧ next.pushed = scope.pushed + 1 := by
  cases h with
  | bind id name value =>
      rw [serials_insertIn] at hserial
      exact .inl hserial
  | push parent context =>
      rw [serials_push, Array.getElem?_push] at hserial
      split at hserial
      · exact .inr ⟨(Option.some.inj hserial).symm, rfl⟩
      · exact .inl hserial
  | pop hpop =>
      rw [(serials_pop hpop).1, Array.getElem?_pop] at hserial
      split at hserial
      · exact .inl hserial
      · cases hserial

end Moves

/-- No frame has a serial number above the count of pushes. -/
def Counted (scope : Scope V) : Prop :=
  ∀ (index serial : Nat), scope.serials[index]? = some serial → serial ≤ scope.pushed

/-- Steps keep the serial numbers below the count of pushes. -/
theorem Counted.moves (h : scope.Counted) (hmoves : scope.Moves next) : next.Counted := by
  intro index serial hserial
  have hpushed := hmoves.pushed_le
  rcases hmoves.getElem?_serials hserial with hold | ⟨rfl, hnew⟩
  · have hle := h index serial hold
    omega
  · omega

/-! ### The handle of the innermost frame -/

/-- The innermost frame has a handle. -/
theorem handle?_current (scope : Scope V) :
    scope.handle? scope.current = some scope.currentHandle := by
  have hsome : (scope.handle? scope.current).isSome = true := by
    cases hcurrent : scope.current with
    | zero => rfl
    | succ index =>
        rw [handle?_succ, Option.isSome_map, Option.isSome_iff_exists]
        have hindex : index < scope.serials.size := by
          rw [size_serials, hcurrent]
          exact Nat.lt_succ_self index
        exact ⟨_, Array.getElem?_eq_getElem hindex⟩
  obtain ⟨handle, hhandle⟩ := Option.isSome_iff_exists.1 hsome
  rw [currentHandle, hhandle]
  rfl

/-- A handle has the number of its frame. -/
theorem id_of_handle? {id : FrameId} {handle : FrameHandle} (h : scope.handle? id = some handle) :
    handle.id = id := by
  cases id with
  | zero =>
      cases h
      rfl
  | succ index =>
      rw [handle?_succ] at h
      obtain ⟨serial, -, rfl⟩ := Option.map_eq_some_iff.1 h
      rfl

/-- A handle has the serial number of its frame. -/
theorem serial_of_handle? {index : Nat} {handle : FrameHandle}
    (h : scope.handle? (index + 1) = some handle) : scope.serials[index]? = some handle.serial := by
  rw [handle?_succ] at h
  obtain ⟨serial, hserial, rfl⟩ := Option.map_eq_some_iff.1 h
  exact hserial

/-- The handle of the innermost frame has its number. -/
@[simp] theorem currentHandle_id (scope : Scope V) : scope.currentHandle.id = scope.current :=
  id_of_handle? (handle?_current scope)

/-- A handle resolves to the number of its frame if it is the handle of that number. -/
theorem resolve_eq_some_iff {handle : FrameHandle} {id : FrameId} :
    scope.resolve handle = some id ↔ id = handle.id ∧ scope.handle? handle.id = some handle := by
  rw [resolve]
  split
  · next hhandle =>
      rw [Option.some.injEq]
      exact ⟨fun heq => ⟨heq.symm, hhandle⟩, fun heq => heq.1.symm⟩
  · next hhandle =>
      constructor
      · intro heq
        cases heq
      · exact fun heq => absurd heq.2 hhandle

/-- What has become of the innermost frame of `birth`, if it is still on the stack (`kept`) or not:
its number belongs to it, or to no frame, or to a frame that was pushed later. -/
structure Fate (birth scope : Scope V) (kept : Prop) : Prop where
  pushed : birth.pushed ≤ scope.pushed
  still : kept → birth.current ≤ scope.current ∧
    scope.handle? birth.current = some birth.currentHandle
  gone : ¬ kept → ∀ (index serial : Nat), birth.current = index + 1 →
    scope.serials[index]? = some serial → birth.pushed < serial
  global : birth.current = 0 → kept

namespace Fate

variable {kept : Prop}

/-- At first the frame is there. -/
theorem start (birth : Scope V) : birth.Fate birth True where
  pushed := Nat.le_refl _
  still := fun _ => ⟨Nat.le_refl _, handle?_current birth⟩
  gone := fun hgone => absurd trivial hgone
  global := fun _ => trivial

/-- Another way to say that the frame is still on the stack. -/
theorem of_iff {kept' : Prop} (h : birth.Fate scope kept) (hiff : kept ↔ kept') :
    birth.Fate scope kept' :=
  propext hiff ▸ h

/-- After a step the frame is still there if it was there and the stack has not fallen below it. -/
theorem moves (h : birth.Fate scope kept) (hmoves : scope.Moves next) :
    birth.Fate next (kept ∧ birth.current ≤ next.current) where
  pushed := Nat.le_trans h.pushed hmoves.pushed_le
  still := by
    rintro ⟨hkept, hle⟩
    obtain ⟨hbefore, hhandle⟩ := h.still hkept
    refine ⟨hle, ?_⟩
    cases hcurrent : birth.current with
    | zero =>
        rw [hcurrent] at hhandle
        exact hhandle
    | succ index =>
        rw [hcurrent] at hhandle hle hbefore
        rw [handle?_succ, hmoves.getElem?_serials_eq hbefore hle, ← handle?_succ]
        exact hhandle
  gone := by
    intro hgone index serial hindex hserial
    by_cases hkept : kept
    · -- The step has popped the frame, so that its number belongs to none.
      have hbelow : ¬ birth.current ≤ next.current := fun hle => hgone ⟨hkept, hle⟩
      have hbound := (Array.getElem?_eq_some_iff.1 hserial).1
      rw [size_serials] at hbound
      rw [hindex] at hbelow
      exact absurd hbound hbelow
    · -- Its number belongs to none, or to a frame that was pushed later.
      have hpushed := h.pushed
      rcases hmoves.getElem?_serials hserial with hold | ⟨rfl, -⟩
      · exact h.gone hkept index serial hindex hold
      · omega
  global := by
    intro hglobal
    refine ⟨h.global hglobal, ?_⟩
    rw [hglobal]
    exact Nat.zero_le _

/-- The handle of the frame resolves just if the frame is still there. -/
theorem resolve_iff (h : birth.Fate scope kept) (hcounted : birth.Counted) {id : FrameId} :
    scope.resolve birth.currentHandle = some id ↔ kept ∧ id = birth.current := by
  rw [resolve_eq_some_iff, currentHandle_id]
  constructor
  · rintro ⟨rfl, hhandle⟩
    refine ⟨?_, rfl⟩
    cases hcurrent : birth.current with
    | zero => exact h.global hcurrent
    | succ index =>
        have hbirth := handle?_current birth
        rw [hcurrent] at hhandle hbirth
        have hle := hcounted index _ (serial_of_handle? hbirth)
        rcases Classical.em kept with hkept | hgone
        · exact hkept
        · have hlt := h.gone hgone index _ hcurrent (serial_of_handle? hhandle)
          omega
  · rintro ⟨hkept, rfl⟩
    exact ⟨rfl, (h.still hkept).2⟩

end Fate

end Quill.Scope
