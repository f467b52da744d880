import Quill.Proofs.Closures.Handles
import Quill.Proofs.Locals

/-!
# Which names a scope reaches

A name is looked up in the innermost frame, and then in one parent after the other.  As long as the
frames stay in their places a name that was found once is found again, and where parents are older
than their children the search always ends at the global frame.  A part of a run leads from a scope
to another one with the same frames; which of them bind a given name changes in the innermost frame
only.
-/

namespace Quill.Scope

variable {V : Type} {scope next inner outer before after : Scope V} {name : String}

/-! ### Looking names up -/

/-- A name has a value just if one of the frames that are searched binds it. -/
theorem isSome_get?_iff :
    (scope.get? name).isSome = true ↔ ∃ id ∈ scope.chain, name ∈ scope.bindingsOf id := by
  rw [get?, Option.isSome_bind]
  constructor
  · intro h
    cases hfind : scope.find? name with
    | none => simp [hfind] at h
    | some id =>
        have hcontains : (scope.bindingsOf id).contains name = true := by
          simpa using List.find?_some hfind
        exact ⟨id, List.mem_of_find?_eq_some hfind, Std.ExtTreeMap.contains_iff_mem.mp hcontains⟩
  · rintro ⟨id, hmem, hbound⟩
    have hcontains := Std.ExtTreeMap.contains_iff_mem.mpr hbound
    cases hfind : scope.find? name with
    | none => exact absurd hcontains (List.find?_eq_none.mp hfind id hmem)
    | some found =>
        have hfound : (scope.bindingsOf found).contains name = true := by
          simpa using List.find?_some hfind
        simpa [getIn?] using hfound

/-- The innermost frame is searched first. -/
theorem current_mem_chain (scope : Scope V) : scope.current ∈ scope.chain := by
  rw [chain, depth, chainFrom]
  split
  · exact List.mem_cons_self
  · exact List.mem_singleton.mpr rfl

theorem locals_insert (scope : Scope V) (name : String) (value : V) :
    (scope.insert name value).locals = scope.locals.insert name value := by
  induction scope using shapes with
  | global globals pushed => rfl
  | inner globals below frame pushed => simp [insert_push]

/-- A name that the innermost frame binds has a value. -/
theorem isSome_get?_of_mem_locals (h : name ∈ scope.locals) : (scope.get? name).isSome = true :=
  isSome_get?_iff.mpr ⟨scope.current, current_mem_chain scope, h⟩

/-- A name that was bound right now has a value. -/
theorem isSome_get?_insert (scope : Scope V) (name : String) (value : V) :
    ((scope.insert name value).get? name).isSome = true := by
  apply isSome_get?_of_mem_locals
  rw [locals_insert]
  exact mem_insert_iff.mpr (.inl rfl)

/-! ### Frames that stay in their places -/

namespace Kept

/-- A frame binds at least the names that it bound before. -/
theorem mem_bindingsOf (h : before.Kept after) {id : FrameId}
    (hname : name ∈ before.bindingsOf id) : name ∈ after.bindingsOf id := by
  cases id with
  | zero => exact h.globals name hname
  | succ index =>
      simp only [bindingsOf] at hname ⊢
      cases hframe : before.frames[index]? with
      | none =>
          rw [hframe] at hname
          exact absurd hname Std.ExtTreeMap.not_mem_empty
      | some frame =>
          obtain ⟨later, hlater, hkept⟩ := h.frame index frame hframe
          rw [hframe] at hname
          rw [hlater]
          exact hkept.bound name hname

/-- The frame with a number is there before if it is there after. -/
theorem frame?_eq_none (h : before.Kept after) {id : FrameId} (hnone : before.frame? id = none) :
    after.frame? id = none := by
  cases id with
  | zero => rfl
  | succ index =>
      simp only [frame?, Array.getElem?_eq_none_iff] at hnone ⊢
      rw [h.size]
      exact hnone

/-- The same frames are searched before and after. -/
theorem chainFrom_eq (h : before.Kept after) (bound : Nat) (id : FrameId) :
    after.chainFrom bound id = before.chainFrom bound id := by
  induction bound generalizing id with
  | zero => rfl
  | succ bound ih =>
      rw [chainFrom, chainFrom]
      cases hframe : before.frame? id with
      | none => rw [h.frame?_eq_none hframe]
      | some frame =>
          cases id with
          | zero => cases hframe
          | succ index =>
              obtain ⟨later, hlater, hkept⟩ := h.frame index frame hframe
              have hfound : after.frame? (index + 1) = some later := hlater
              rw [hfound]
              simp only
              rw [hkept.parent, ih]

theorem current_eq (h : before.Kept after) : after.current = before.current :=
  h.size

theorem chain_eq (h : before.Kept after) : after.chain = before.chain := by
  rw [chain, chain, depth, depth, h.size, h.current_eq, h.chainFrom_eq]

/-- A name that had a value still has one. -/
theorem isSome_get? (h : before.Kept after) (hname : (before.get? name).isSome = true) :
    (after.get? name).isSome = true := by
  obtain ⟨id, hid, hbound⟩ := isSome_get?_iff.mp hname
  refine isSome_get?_iff.mpr ⟨id, ?_, h.mem_bindingsOf hbound⟩
  rw [h.chain_eq]
  exact hid

/-- Frames keep their serial numbers. -/
theorem serials_eq (h : before.Kept after) : after.serials = before.serials := by
  apply Array.ext_getElem?
  intro index
  simp only [serials, Array.getElem?_map]
  cases hframe : before.frames[index]? with
  | none =>
      have hnone : before.frame? (index + 1) = none := hframe
      have hafter : after.frames[index]? = none := h.frame?_eq_none hnone
      rw [hafter]
  | some frame =>
      obtain ⟨later, hlater, hkept⟩ := h.frame index frame hframe
      rw [hlater, Option.map_some, Option.map_some, hkept.serial]

theorem handle?_eq (h : before.Kept after) (id : FrameId) :
    after.handle? id = before.handle? id := by
  cases id with
  | zero => rfl
  | succ index => rw [handle?_succ, handle?_succ, h.serials_eq]

/-- Handles resolve to the same frames. -/
theorem resolve_eq (h : before.Kept after) (handle : FrameHandle) :
    after.resolve handle = before.resolve handle := by
  rw [resolve, resolve, h.handle?_eq]

theorem currentHandle_eq (h : before.Kept after) : after.currentHandle = before.currentHandle := by
  rw [currentHandle, currentHandle, h.current_eq, h.handle?_eq]

end Kept

/-! ### Pushing and popping -/

/-- A new frame binds nothing, and the others are left alone. -/
theorem bindingsOf_pushed (scope : Scope V) (parent : FrameId) (context : Option Ty)
    (id : FrameId) : (scope.push parent context).bindingsOf id = scope.bindingsOf id := by
  cases id with
  | zero => rfl
  | succ index =>
      simp only [bindingsOf, push, Array.getElem?_push]
      by_cases hindex : index = scope.frames.size
      · simp [hindex]
      · simp [hindex]

theorem frame?_pushed {id : FrameId} {frame : Frame V} (h : scope.frame? id = some frame)
    (parent : FrameId) (context : Option Ty) :
    (scope.push parent context).frame? id = some frame := by
  cases id with
  | zero => cases h
  | succ index =>
      have hbelow : index ≠ scope.frames.size :=
        Nat.ne_of_lt (Array.getElem?_eq_some_iff.mp h).1
      simpa [frame?, push, Array.getElem?_push, hbelow] using h

theorem current_push (scope : Scope V) (parent : FrameId) (context : Option Ty) :
    (scope.push parent context).current = scope.current + 1 := by
  simp [current, push]

/-- A pop takes the last frame away. -/
theorem frames_of_pop (h : inner.pop = .ok outer) :
    inner.frames.size ≠ 0 ∧ outer = { inner with frames := inner.frames.pop } := by
  rw [pop] at h
  split at h
  · cases h
  · next hempty =>
    cases h
    exact ⟨by simpa using hempty, rfl⟩

theorem current_of_pop (h : inner.pop = .ok outer) : inner.current = outer.current + 1 := by
  obtain ⟨hsize, rfl⟩ := frames_of_pop h
  show inner.frames.size = inner.frames.pop.size + 1
  rw [Array.size_pop]
  omega

theorem frame?_popped (h : inner.pop = .ok outer) {id : FrameId} (hid : id ≤ outer.current) :
    outer.frame? id = inner.frame? id := by
  obtain ⟨-, rfl⟩ := frames_of_pop h
  cases id with
  | zero => rfl
  | succ index =>
      have hbelow : index + 1 ≤ inner.frames.size - 1 := by
        simpa [current] using hid
      rw [frame?, frame?, Array.getElem?_pop, if_pos (Nat.lt_of_succ_le hbelow)]

theorem bindingsOf_popped (h : inner.pop = .ok outer) {id : FrameId} (hid : id ≤ outer.current) :
    outer.bindingsOf id = inner.bindingsOf id := by
  obtain ⟨-, rfl⟩ := frames_of_pop h
  cases id with
  | zero => rfl
  | succ index =>
      have hbelow : index + 1 ≤ inner.frames.size - 1 := by
        simpa [current] using hid
      rw [bindingsOf, bindingsOf, Array.getElem?_pop, if_pos (Nat.lt_of_succ_le hbelow)]

theorem bindingsOf_of_lt {id : FrameId} (h : scope.current < id) : scope.bindingsOf id = ∅ := by
  cases id with
  | zero => exact absurd h (Nat.not_lt_zero _)
  | succ index =>
      rw [bindingsOf, Array.getElem?_eq_none (Nat.le_of_lt_succ h)]

/-- What a scope holds after a pop was there before. -/
theorem getIn?_of_pop (h : inner.pop = .ok outer) {id : FrameId} {value : V}
    (hvalue : outer.getIn? id name = some value) : inner.getIn? id name = some value := by
  by_cases hid : id ≤ outer.current
  · rwa [getIn?, bindingsOf_popped h hid] at hvalue
  · rw [getIn?, bindingsOf_of_lt (Nat.lt_of_not_le hid)] at hvalue
    simp at hvalue

/-! ### Parents that are older than their children -/

/-- Every frame has a parent that is older than it. -/
def Straight (scope : Scope V) : Prop :=
  ∀ (index : Nat) (frame : Frame V), scope.frames[index]? = some frame → frame.parent ≤ index

/-- The name is bound in the frame, or in one in which the search for it goes on. -/
inductive Reaches (scope : Scope V) (name : String) : FrameId → Prop
  | here {id : FrameId} (bound : name ∈ scope.bindingsOf id) : Reaches scope name id
  | up {id : FrameId} {frame : Frame V} (found : scope.frame? id = some frame)
    (parent : Reaches scope name frame.parent) : Reaches scope name id

theorem Straight.kept (h : before.Straight) (hkept : before.Kept after) : after.Straight := by
  intro index frame hframe
  have hbound : index < before.frames.size := by
    rw [← hkept.size]
    exact (Array.getElem?_eq_some_iff.mp hframe).1
  obtain ⟨later, hlater, hsame⟩ := hkept.frame index _ (Array.getElem?_eq_getElem hbound)
  obtain rfl : later = frame := Option.some.inj (hlater.symm.trans hframe)
  rw [hsame.parent]
  exact h index _ (Array.getElem?_eq_getElem hbound)

theorem Straight.push (h : scope.Straight) {parent : FrameId} (hparent : parent ≤ scope.current)
    (context : Option Ty) : (scope.push parent context).Straight := by
  intro index frame hframe
  simp only [Scope.push, Array.getElem?_push] at hframe
  split at hframe
  · next hindex =>
    cases hframe
    rw [hindex]
    exact hparent
  · exact h index frame hframe

/-- The handle of the innermost frame is no newer than the last push. -/
theorem Counted.serial_currentHandle (h : scope.Counted) :
    scope.currentHandle.serial ≤ scope.pushed := by
  have hhandle := handle?_current scope
  cases hcurrent : scope.current with
  | zero =>
      rw [hcurrent] at hhandle
      rw [← Option.some.inj hhandle]
      exact Nat.zero_le _
  | succ index =>
      rw [hcurrent] at hhandle
      exact h index _ (serial_of_handle? hhandle)

/-- Under a handle that resolves there is a frame on the stack. -/
theorem le_current_of_resolve {handle : FrameHandle} {id : FrameId}
    (h : scope.resolve handle = some id) : id ≤ scope.current := by
  obtain ⟨rfl, hhandle⟩ := resolve_eq_some_iff.mp h
  cases hid : handle.id with
  | zero => exact Nat.zero_le _
  | succ index =>
      rw [hid, handle?_succ] at hhandle
      obtain ⟨serial, hserial, -⟩ := Option.map_eq_some_iff.mp hhandle
      rw [← size_serials]
      exact (Array.getElem?_eq_some_iff.mp hserial).1

/-- The frames from which a name is reached are those whose search finds it. -/
theorem Straight.reaches_iff (h : scope.Straight) {bound : Nat} {id : FrameId} (hid : id < bound) :
    scope.Reaches name id ↔ ∃ other ∈ scope.chainFrom bound id, name ∈ scope.bindingsOf other := by
  induction bound generalizing id with
  | zero => exact absurd hid (Nat.not_lt_zero _)
  | succ bound ih =>
      rw [chainFrom]
      cases hframe : scope.frame? id with
      | none =>
          simp only [List.mem_singleton, exists_eq_left]
          constructor
          · intro hreaches
            cases hreaches with
            | here hbound => exact hbound
            | up hfound _ => exact absurd (hframe.symm.trans hfound) (by simp)
          · exact .here
      | some frame =>
          -- The parent is older, so fewer frames are left to be searched.
          have hparent : frame.parent < bound := by
            cases id with
            | zero => cases hframe
            | succ index =>
                have hle : frame.parent ≤ index := h index frame hframe
                exact Nat.lt_of_le_of_lt hle (Nat.lt_of_succ_lt_succ hid)
          simp only [List.mem_cons, exists_eq_or_imp, ← ih hparent]
          constructor
          · intro hreaches
            cases hreaches with
            | here hbound => exact .inl hbound
            | up hfound hup =>
                cases hframe.symm.trans hfound
                exact .inr hup
          · rintro (hbound | hup)
            · exact .here hbound
            · exact .up hframe hup

/-- A name has a value just if it is reached from the innermost frame. -/
theorem Straight.isSome_get?_iff (h : scope.Straight) :
    (scope.get? name).isSome = true ↔ scope.Reaches name scope.current := by
  rw [Scope.isSome_get?_iff, chain, h.reaches_iff (Nat.lt_succ_self _)]
  rfl

/-- Names of the global frame are reached from everywhere. -/
theorem Straight.reaches_global (h : scope.Straight) (hglobal : name ∈ scope.globals) (id : FrameId)
    (hid : id ≤ scope.current) : scope.Reaches name id := by
  induction id using Nat.strongRecOn with
  | ind id ih =>
      cases id with
      | zero => exact .here hglobal
      | succ index =>
          obtain ⟨frame, hframe⟩ : ∃ frame, scope.frames[index]? = some frame :=
            ⟨_, Array.getElem?_eq_getElem hid⟩
          have hparent : frame.parent ≤ index := h index frame hframe
          exact .up hframe (ih _ (Nat.lt_succ_of_le hparent)
            (Nat.le_trans hparent (Nat.le_of_lt hid)))

namespace Reaches

variable {id : FrameId}

theorem kept (h : before.Reaches name id) (hkept : before.Kept after) : after.Reaches name id := by
  induction h with
  | here hbound => exact .here (hkept.mem_bindingsOf hbound)
  | @up id frame hfound _ ih =>
      cases id with
      | zero => cases hfound
      | succ index =>
          obtain ⟨later, hlater, hsame⟩ := hkept.frame index frame hfound
          rw [← hsame.parent] at ih
          exact .up hlater ih

/-- A new frame hides none of the others. -/
theorem push (h : scope.Reaches name id) (parent : FrameId) (context : Option Ty) :
    (scope.push parent context).Reaches name id := by
  induction h with
  | here hbound =>
      refine .here ?_
      rw [bindingsOf_pushed]
      exact hbound
  | up hfound _ ih => exact .up (frame?_pushed hfound parent context) ih

/-- A name that is reached from a frame on the stack does not depend on the frames above it. -/
theorem pop (h : inner.Reaches name id) (hstraight : inner.Straight)
    (hpop : inner.pop = .ok outer) (hid : id ≤ outer.current) : outer.Reaches name id := by
  have hcurrent := current_of_pop hpop
  induction h with
  | here hbound =>
      refine .here ?_
      rw [bindingsOf_popped hpop hid]
      exact hbound
  | @up id frame hfound _ ih =>
      cases id with
      | zero => cases hfound
      | succ index =>
          have hparent : frame.parent ≤ index := hstraight index frame hfound
          exact .up ((frame?_popped hpop hid).trans hfound)
            (ih (Nat.le_trans hparent (Nat.le_of_succ_le hid)))

end Reaches

theorem handle?_of_serial {handle : FrameHandle} {index : Nat} (hid : handle.id = index + 1)
    (h : scope.serials[index]? = some handle.serial) : scope.handle? (index + 1) = some handle := by
  rw [handle?_succ, h, ← hid]
  rfl

/-- A handle that resolves after a push has resolved before, unless it is newer than the push. -/
theorem resolve_of_push {handle : FrameHandle} {id parent : FrameId} {context : Option Ty}
    (hserial : handle.serial ≤ scope.pushed)
    (h : (scope.push parent context).resolve handle = some id) :
    scope.resolve handle = some id := by
  rw [resolve_eq_some_iff] at h ⊢
  refine ⟨h.1, ?_⟩
  cases hid : handle.id with
  | zero =>
      rw [hid] at h
      exact h.2
  | succ index =>
      rw [hid] at h
      have hfound := serial_of_handle? h.2
      rw [serials_push, Array.getElem?_push] at hfound
      split at hfound
      -- The new frame has a serial number that no older handle carries.
      · have hnew := Option.some.inj hfound
        omega
      · exact handle?_of_serial hid hfound

/-- A handle that resolves after a pop has resolved before. -/
theorem resolve_of_pop {handle : FrameHandle} {id : FrameId} (hpop : inner.pop = .ok outer)
    (h : outer.resolve handle = some id) : inner.resolve handle = some id := by
  have hle := le_current_of_resolve h
  rw [resolve_eq_some_iff] at h ⊢
  refine ⟨h.1, ?_⟩
  rw [h.1] at hle
  cases hid : handle.id with
  | zero =>
      rw [hid] at h
      exact h.2
  | succ index =>
      rw [hid] at h hle
      have hfound := serial_of_handle? h.2
      rw [(serials_pop hpop).1, Array.getElem?_pop] at hfound
      split at hfound
      · exact handle?_of_serial hid hfound
      · cases hfound

/-! ### What a part of a run leads to -/

/-- A name that a frame binds after another name was bound is that one, or it was bound before. -/
theorem mem_bindingsOf_insertIn {id asked : FrameId} {other : String} {value : V}
    (h : name ∈ (scope.insertIn id other value).bindingsOf asked) :
    name ∈ scope.bindingsOf asked ∨ id = asked ∧ other = name := by
  cases id with
  | zero =>
      cases asked with
      | zero => exact (mem_insert_iff.mp h).elim (fun hname => .inr ⟨rfl, hname⟩) .inl
      | succ place => exact .inl h
  | succ index =>
      cases asked with
      | zero => exact .inl h
      | succ place =>
          simp only [bindingsOf, insertIn, Array.getElem?_modify] at h ⊢
          by_cases hplace : index = place
          · subst hplace
            cases hframe : scope.frames[index]? with
            | none =>
                simp [hframe] at h
            | some frame =>
                simp only [hframe, if_true, Option.map_some] at h ⊢
                exact (mem_insert_iff.mp h).elim (fun hname => .inr ⟨trivial, hname⟩) .inl
          · simp only [if_neg hplace] at h
            exact .inl h

/-- What a part of a run leads to: the frames stay in their places, and which of them bind the name
has not changed, except that the innermost one may have come to bind it if it is free to. -/
structure Leads (name : String) (free : Prop) (scope next : Scope V) : Prop where
  kept : scope.Kept next
  pushed : scope.pushed ≤ next.pushed
  below : ∀ id, id < scope.current → name ∈ next.bindingsOf id → name ∈ scope.bindingsOf id
  here : name ∈ next.locals → name ∈ scope.locals ∨ free

namespace Leads

variable {free : Prop}

theorem refl (name : String) (free : Prop) (scope : Scope V) : scope.Leads name free scope where
  kept := Kept.refl scope
  pushed := Nat.le_refl _
  below _ _ h := h
  here := .inl

theorem trans (hfirst : scope.Leads name free inner) (hsecond : inner.Leads name free next) :
    scope.Leads name free next where
  kept := hfirst.kept.trans hsecond.kept
  pushed := Nat.le_trans hfirst.pushed hsecond.pushed
  below id hid h := by
    have hinner : id < inner.current := by
      rw [hfirst.kept.current_eq]
      exact hid
    exact hfirst.below id hid (hsecond.below id hinner h)
  here h := (hsecond.here h).elim hfirst.here .inr

/-- Binding a name in a frame that binds it already, or in the innermost one if that is free to. -/
theorem insertIn {id : FrameId} {other : String} {value : V}
    (h : other = name → name ∈ scope.bindingsOf id ∨ id = scope.current ∧ free) :
    scope.Leads name free (scope.insertIn id other value) := by
  have hnew : ∀ asked, name ∈ (scope.insertIn id other value).bindingsOf asked →
      name ∈ scope.bindingsOf asked ∨ asked = scope.current ∧ free := by
    intro asked hasked
    rcases mem_bindingsOf_insertIn hasked with hold | ⟨rfl, hname⟩
    · exact .inl hold
    · exact h hname
  constructor
  · exact kept_insertIn scope id other value
  · exact (Moves.bind id other value).pushed_le
  · intro asked hbelow hasked
    rcases hnew asked hasked with hold | ⟨rfl, -⟩
    · exact hold
    · exact absurd hbelow (Nat.lt_irrefl _)
  · intro hmem
    rw [locals, (kept_insertIn scope id other value).current_eq] at hmem
    exact (hnew scope.current hmem).imp_right (·.2)

theorem insert {other : String} {value : V} (h : other = name → free) :
    scope.Leads name free (scope.insert other value) :=
  insertIn fun hname => .inr ⟨rfl, h hname⟩

/-- Binding a name anew where it is bound adds none. -/
theorem update {other : String} {value : V} (h : scope.update? other value = some next) :
    scope.Leads name free next := by
  obtain ⟨id, hfind, rfl⟩ := Option.map_eq_some_iff.mp h
  apply insertIn
  rintro rfl
  have hcontains : (scope.bindingsOf id).contains other = true := by
    simpa using List.find?_some hfind
  exact .inl (Std.ExtTreeMap.contains_iff_mem.mp hcontains)

/-- What happens between a push and the pop of the frame changes nothing in the frames below. -/
theorem pop {parent : FrameId} {context : Option Ty}
    (h : (scope.push parent context).Leads name True inner) (hpop : inner.pop = .ok outer) :
    scope.Leads name free outer := by
  obtain ⟨last, hlast⟩ := h.kept.popsPushed
  obtain rfl : last = outer := Except.ok.inj (hlast.pop.symm.trans hpop)
  have hcurrent := hlast.kept.current_eq
  -- The frames that are left were below the pushed one.
  have hsame : ∀ id, id ≤ scope.current → name ∈ last.bindingsOf id →
      name ∈ scope.bindingsOf id := by
    intro id hid hmem
    rw [bindingsOf_popped hpop (hcurrent ▸ hid)] at hmem
    have hbefore := h.below id (by rw [current_push]; exact Nat.lt_succ_of_le hid) hmem
    rwa [bindingsOf_pushed] at hbefore
  constructor
  · exact hlast.kept
  · rw [(serials_pop hpop).2]
    exact Nat.le_trans (Nat.le_succ _) h.pushed
  · exact fun id hid => hsame id (Nat.le_of_lt hid)
  · intro hmem
    rw [locals, hcurrent] at hmem
    exact .inl (hsame scope.current (Nat.le_refl _) hmem)

end Leads

end Quill.Scope
