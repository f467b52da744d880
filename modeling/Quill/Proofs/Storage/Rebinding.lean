import Quill.Proofs.Binding.Reach

/-!
# Binding a name anew

A name that a scope finds is bound anew in the frame where it was found.  That frame and no other
one changes, in that name and no other one; so all names are found where they were found before.
-/

namespace Quill.Scope

variable {V : Type} {scope : Scope V} {id : FrameId} {name : String}

/-- The frame that is found for a name binds it. -/
theorem mem_of_find? (h : scope.find? name = some id) : name ∈ scope.bindingsOf id := by
  have hcontains : (scope.bindingsOf id).contains name = true := by
    simpa using List.find?_some h
  exact Std.ExtTreeMap.contains_iff_mem.mp hcontains

/-- A name has a value just if a frame is found for it. -/
theorem isSome_get?_iff_find? :
    (scope.get? name).isSome = true ↔ ∃ id, scope.find? name = some id := by
  rw [get?, Option.isSome_bind]
  constructor
  · intro h
    cases hfind : scope.find? name with
    | none => simp [hfind] at h
    | some id => exact ⟨id, rfl⟩
  · rintro ⟨id, hfind⟩
    have hbound := mem_of_find? hfind
    simpa [hfind, getIn?] using hbound

/-- The frame in which a name is bound anew binds the same names as before, and that one. -/
theorem bindingsOf_insertIn_self (h : name ∈ scope.bindingsOf id) (value : V) :
    (scope.insertIn id name value).bindingsOf id = (scope.bindingsOf id).insert name value := by
  cases id with
  | zero => rfl
  | succ index =>
      simp only [bindingsOf, insertIn, Array.getElem?_modify, if_true] at h ⊢
      cases hframe : scope.frames[index]? with
      | none =>
          rw [hframe] at h
          exact absurd h Std.ExtTreeMap.not_mem_empty
      | some frame => rfl

/-- All other frames are left alone. -/
theorem bindingsOf_insertIn_of_ne {other : FrameId} (h : other ≠ id) (value : V) :
    (scope.insertIn id name value).bindingsOf other = scope.bindingsOf other := by
  cases id with
  | zero =>
      cases other with
      | zero => exact absurd rfl h
      | succ place => rfl
  | succ index =>
      cases other with
      | zero => rfl
      | succ place =>
          have hplace : index ≠ place := by
            rintro rfl
            exact h rfl
          simp only [bindingsOf, insertIn, Array.getElem?_modify, if_neg hplace]

/-- The binding itself after it was made anew. -/
theorem getIn?_insertIn_self (h : name ∈ scope.bindingsOf id) (value : V) :
    (scope.insertIn id name value).getIn? id name = some value := by
  rw [getIn?, bindingsOf_insertIn_self h, getElem?_insert, if_pos rfl]

/-- Every other binding, in whatever frame, is left alone. -/
theorem getIn?_insertIn_of_ne (h : name ∈ scope.bindingsOf id) (value : V) {asked : FrameId}
    {other : String} (hother : (asked, other) ≠ (id, name)) :
    (scope.insertIn id name value).getIn? asked other = scope.getIn? asked other := by
  by_cases hasked : asked = id
  · subst hasked
    have hname : name ≠ other := by
      rintro rfl
      exact hother rfl
    rw [getIn?, bindingsOf_insertIn_self h, getElem?_insert, if_neg hname]
    rfl
  · rw [getIn?, bindingsOf_insertIn_of_ne hasked]
    rfl

/-- All names are found in the frames in which they were found before. -/
theorem find?_insertIn (h : name ∈ scope.bindingsOf id) (value : V) (other : String) :
    (scope.insertIn id name value).find? other = scope.find? other := by
  have hkept := kept_insertIn scope id name value
  rw [find?, find?, hkept.chain_eq]
  congr 1
  funext asked
  rw [Bool.eq_iff_iff, Std.ExtTreeMap.contains_iff_mem, Std.ExtTreeMap.contains_iff_mem]
  constructor
  · intro hmem
    rcases mem_bindingsOf_insertIn hmem with hold | ⟨rfl, rfl⟩
    · exact hold
    · exact h
  · exact hkept.mem_bindingsOf

/-- A name that is bound anew in the frame found for it has the new value. -/
theorem get?_insertIn_self (h : scope.find? name = some id) (value : V) :
    (scope.insertIn id name value).get? name = some value := by
  have hbound := mem_of_find? h
  rw [get?, find?_insertIn hbound, h]
  exact getIn?_insertIn_self hbound value

end Quill.Scope
