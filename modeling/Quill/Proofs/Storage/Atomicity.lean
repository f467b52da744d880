import Quill.Eval
import Quill.Proofs.Binding.Complaints
import Quill.Proofs.Storage.WriteBack

/-!
# A write happens as a whole or not at all

A write through elements goes outward from the innermost aggregate.  At each level it reads, checks
the index and the kinds of the values, and may stop with a fault.  `Location.write` gives a scope
only if all of this succeeds, so it cannot show a write that was left half done.

`Location.assign` is the same write on a scope that is changed in place and stays as it was left
when a fault comes.  The two agree, whatever the location: the only change is the last thing that
happens.  So a write that faults changes nothing, and one that succeeds changes one binding.
-/

namespace Quill

/-- An action that changes a scope in place.  If it stops with a fault, the scope is what the action
has made of it until then. -/
abbrev Storing := EStateM Fault (Scope Value)

namespace Storing

/-- The value at a location. -/
def fetch (location : Location) : Storing Value := fun scope =>
  match location.read scope with
  | .ok value => .ok value scope
  | .error fault => .error fault scope

/-- A result that may be a fault. -/
def ofExcept {α : Type} : Except Fault α → Storing α
  | .ok value => pure value
  | .error fault => throw fault

/-- Binds a name anew in the nearest frame that binds it. -/
def rebind (name : String) (value : Value) : Storing Unit := fun scope =>
  match scope.update? name value with
  | some updated => .ok () updated
  | none =>
    .error (.uncheckedProgram ("assignment to unbound identifier '" ++ name ++ "'")) scope

end Storing

namespace Location

/-- Writes a value to a location in place: a change of the aggregate around an element is itself
written to where the aggregate came from. -/
def assign : Location → Value → Storing Unit
  | named name, value => Storing.rebind name value
  | temporary _, _ => throw .notAssignable
  | element base index, value => do
    let aggregate ← Storing.fetch base
    let updated ← Storing.ofExcept (aggregate.storeAt index value)
    base.assign updated

variable {scope updated : Scope Value} {location : Location} {value : Value}

/-- Writing in place comes to what `write` gives, and every fault finds the scope untouched.  The
induction goes down to the root: the levels above it only read. -/
theorem assign_eq_write (location : Location) (value : Value) (scope : Scope Value) :
    location.assign value scope =
      match location.write scope value with
      | .ok updated => .ok () updated
      | .error fault => .error fault scope := by
  induction location generalizing value with
  | named name =>
      simp only [assign, Storing.rebind, write]
      cases scope.update? name value with
      | some updated => rfl
      | none => rfl
  | temporary held => rfl
  | element base index ih =>
      show EStateM.bind (Storing.fetch base) _ scope = _
      rw [EStateM.bind, Storing.fetch, write]
      cases base.read scope with
      | error fault => rfl
      | ok aggregate =>
          show EStateM.bind (Storing.ofExcept (aggregate.storeAt index value)) _ scope = _
          simp only
          cases aggregate.storeAt index value with
          | error fault => rfl
          | ok stored => exact ih stored

/-- A location with a root is a way into that variable. -/
theorem eq_path_of_root? {name : String} (h : location.root? = some name) :
    ∃ indices, location = path name indices := by
  induction location with
  | named found =>
      obtain rfl : found = name := Option.some.inj h
      exact ⟨[], rfl⟩
  | temporary held => cases h
  | element base index ih =>
      obtain ⟨indices, rfl⟩ := ih h
      exact ⟨indices ++ [index], path_concat.symm⟩

/-- Only what lies in a variable can be written. -/
theorem root?_of_write (h : location.write scope value = .ok updated) :
    ∃ name, location.root? = some name := by
  induction location generalizing value with
  | named name => exact ⟨name, rfl⟩
  | temporary held => cases h
  | element base index ih =>
      obtain ⟨aggregate, stored, -, -, hbase⟩ := write_element_eq_ok_iff.mp h
      exact ih hbase

/-- A write happens as a whole or not at all, for every scope, every location and every value.  A
write in place that stops with a fault, at whatever level, leaves the scope as it was, and the
machine of a running program with it.  A write that succeeds is one to a variable that is bound, or
into such a variable; it binds that variable anew in the frame in which it is found, and changes no
other binding in any frame. -/
theorem write_whole_or_not_at_all (location : Location) (value : Value) :
    (∀ scope fault after, location.assign value scope = .error fault after →
      after = scope ∧ location.write scope value = .error fault) ∧
    (∀ machine halt after, Eval.write location value machine = .error halt after →
      after = machine) ∧
    ∀ scope updated, location.assign value scope = .ok () updated →
      location.write scope value = .ok updated ∧
      ∃ name id root, location.root? = some name ∧ scope.find? name = some id ∧
        (scope.get? name).isSome = true ∧ updated = scope.insertIn id name root ∧
        ∀ frame asked, (frame, asked) ≠ (id, name) →
          updated.getIn? frame asked = scope.getIn? frame asked := by
  refine ⟨fun scope fault after h => ?_, fun machine halt after h => ?_, fun scope updated h => ?_⟩
  · rw [assign_eq_write] at h
    cases hwrite : location.write scope value with
    | ok written => simp [hwrite] at h
    | error found =>
        simp only [hwrite, EStateM.Result.error.injEq] at h
        exact ⟨h.2.symm, by rw [h.1]⟩
  · rw [Eval.write] at h
    cases hwrite : location.write machine.scope value with
    | ok written => simp [hwrite] at h
    | error fault =>
        simp only [hwrite, EStateM.Result.error.injEq] at h
        exact h.2.symm
  · rw [assign_eq_write] at h
    have hwrite : location.write scope value = .ok updated := by
      cases hwrite : location.write scope value with
      | ok written => simpa [hwrite] using h
      | error fault => simp [hwrite] at h
    obtain ⟨name, hroot⟩ := root?_of_write hwrite
    obtain ⟨indices, rfl⟩ := eq_path_of_root? hroot
    obtain ⟨id, root, hfind, rfl⟩ := rebinds_of_write hwrite
    have hbound := Scope.mem_of_find? hfind
    refine ⟨hwrite, name, id, root, hroot, hfind, ?_, rfl, fun frame asked hother => ?_⟩
    · exact Scope.isSome_get?_iff_find?.mpr ⟨id, hfind⟩
    · exact Scope.getIn?_insertIn_of_ne hbound root hother

end Location

end Quill
