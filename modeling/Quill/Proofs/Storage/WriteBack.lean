import Mathlib.Data.List.Induction
import Quill.Proofs.Storage.Rebinding

/-!
# Writing back into nested arrays

A write to an element of an array inside other arrays reads each array on the way, stores into a
copy of the innermost one and writes the copies back, one level after the other, down to the
variable that holds everything.  For a way of any length that leads through arrays only this is the
same as a change in place: the element can be written just if it can be read, it has the new value
then, and what lies off the way is what it was.
-/

namespace Quill

/-! ### One array -/

namespace Value

variable {index other : Int64} {place : Nat} {elements : List Value} {value updated : Value}

/-- Different integers denote different places. -/
theorem place?_inj (h : place? index = some place) (hother : place? other = some place) :
    index = other := by
  unfold place? at h hother
  split at h
  · cases h
  · next hindex =>
    split at hother
    · cases hother
    · next hless =>
      have hsame : index.toInt.toNat = other.toInt.toNat :=
        (Option.some.inj h).trans (Option.some.inj hother).symm
      rw [Int64.lt_iff_toInt_lt, Int64.toInt_zero] at hindex hless
      exact Int64.toInt_inj.mp (by omega)

theorem elementAt_array_eq_ok_iff :
    (array elements).elementAt index = .ok value ↔
      ∃ place, place? index = some place ∧ elements[place]? = some value := by
  rw [← Option.bind_eq_some_iff]
  simp only [elementAt]
  cases (place? index).bind (elements[·]?) with
  | none => simp
  | some found => simp

theorem storeAt_array_eq_ok_iff :
    (array elements).storeAt index value = .ok updated ↔
      ∃ place, place? index = some place ∧ place < elements.length ∧
        updated = array (elements.set place value) := by
  simp only [storeAt]
  cases hplace : place? index with
  | none => simp
  | some place =>
      by_cases hlength : place < elements.length
      · simp [Option.filter, hlength, eq_comm]
      · simp [Option.filter, hlength]

/-- What can be stored into an array is what can be read of it. -/
theorem storeAt_array_isOk_iff :
    (∃ updated, (array elements).storeAt index value = .ok updated) ↔
      ∃ old, (array elements).elementAt index = .ok old := by
  constructor
  · rintro ⟨updated, hstore⟩
    obtain ⟨place, hplace, hlength, -⟩ := storeAt_array_eq_ok_iff.mp hstore
    exact ⟨elements[place], elementAt_array_eq_ok_iff.mpr
      ⟨place, hplace, List.getElem?_eq_getElem hlength⟩⟩
  · rintro ⟨old, hread⟩
    obtain ⟨place, hplace, hold⟩ := elementAt_array_eq_ok_iff.mp hread
    obtain ⟨hlength, -⟩ := List.getElem?_eq_some_iff.mp hold
    exact ⟨_, storeAt_array_eq_ok_iff.mpr ⟨place, hplace, hlength, rfl⟩⟩

/-- What was stored into an array is read there. -/
theorem elementAt_of_storeAt (h : (array elements).storeAt index value = .ok updated) :
    updated.elementAt index = .ok value := by
  obtain ⟨place, hplace, hlength, rfl⟩ := storeAt_array_eq_ok_iff.mp h
  exact elementAt_array_eq_ok_iff.mpr ⟨place, hplace, List.getElem?_set_self hlength⟩

/-- At any other index an array reads as before, also where it has no element. -/
theorem elementAt_of_storeAt_of_ne (h : (array elements).storeAt index value = .ok updated)
    (hother : other ≠ index) : updated.elementAt other = (array elements).elementAt other := by
  obtain ⟨place, hplace, -, rfl⟩ := storeAt_array_eq_ok_iff.mp h
  have hfound : (place? other).bind ((elements.set place value)[·]?) =
      (place? other).bind (elements[·]?) := by
    cases hasked : place? other with
    | none => rfl
    | some asked =>
        have hplaces : place ≠ asked := by
          rintro rfl
          exact hother (place?_inj hasked hplace)
        simp [List.getElem?_set_ne hplaces]
  simp only [elementAt, hfound, List.length_set]

end Value

/-! ### Ways into a variable -/

namespace Location

variable {scope updated : Scope Value} {name : String} {indices way rest : List Int64}
  {index : Int64} {value : Value}

/-- The location to which indices lead from a variable. -/
def path (name : String) (indices : List Int64) : Location :=
  indices.foldl element (named name)

@[simp] theorem path_nil : path name [] = named name := rfl

@[simp] theorem path_concat :
    path name (indices ++ [index]) = element (path name indices) index := by
  simp [path]

theorem path_append : path name (way ++ rest) = rest.foldl element (path name way) := by
  simp [path]

/-- Every array or string that is indexed on the way, from the variable on, is an array. -/
def ThroughArrays (scope : Scope Value) (name : String) (indices : List Int64) : Prop :=
  ∀ way, way <+: indices → way ≠ indices →
    ∃ elements, (path name way).read scope = .ok (.array elements)

theorem ThroughArrays.init (h : ThroughArrays scope name (indices ++ [index])) :
    ThroughArrays scope name indices := by
  intro way hway _
  refine h way (hway.trans (List.prefix_append indices [index])) ?_
  rintro rfl
  have hlength := hway.length_le
  rw [List.length_append, List.length_singleton] at hlength
  omega

theorem ThroughArrays.last (h : ThroughArrays scope name (indices ++ [index])) :
    ∃ elements, (path name indices).read scope = .ok (.array elements) :=
  h indices (List.prefix_append indices [index]) (by simp)

/-- What is read further on depends only on what is read before. -/
theorem read_foldl_congr {base : Location} (h : base.read updated = base.read scope)
    (rest : List Int64) :
    (rest.foldl element base).read updated = (rest.foldl element base).read scope := by
  induction rest generalizing base with
  | nil => exact h
  | cons index rest ih =>
      apply ih
      rw [read, read, h]

theorem read_named_eq_ok_iff :
    (named name).read scope = .ok value ↔ scope.get? name = some value := by
  rw [read]
  cases scope.get? name with
  | none => simp
  | some found => simp

theorem write_named_eq_ok_iff :
    (named name).write scope value = .ok updated ↔ scope.update? name value = some updated := by
  rw [write]
  cases scope.update? name value with
  | none => simp
  | some found => simp

/-- A write through an element stores into the aggregate that is read, and writes that back. -/
theorem write_element_eq_ok_iff {base : Location} :
    (element base index).write scope value = .ok updated ↔
      ∃ aggregate stored, base.read scope = .ok aggregate ∧
        aggregate.storeAt index value = .ok stored ∧ base.write scope stored = .ok updated := by
  rw [write]
  cases base.read scope with
  | error fault => simp
  | ok aggregate =>
      cases hstore : aggregate.storeAt index value with
      | error fault => simp [hstore]
      | ok stored => simp [hstore]

/-- However deep the way, a write that succeeds is one new binding of the variable, in the frame in
which the variable is found. -/
theorem rebinds_of_write (h : (path name indices).write scope value = .ok updated) :
    ∃ id root, scope.find? name = some id ∧ updated = scope.insertIn id name root := by
  induction indices using List.reverseRecOn generalizing value with
  | nil =>
      obtain ⟨id, hfind, rfl⟩ := Option.map_eq_some_iff.mp (write_named_eq_ok_iff.mp h)
      exact ⟨id, value, hfind, rfl⟩
  | append_singleton indices index ih =>
      rw [path_concat, write_element_eq_ok_iff] at h
      obtain ⟨aggregate, stored, -, -, hwrite⟩ := h
      exact ih hwrite

/-- What can be written through arrays is what can be read. -/
theorem write_isOk_iff (h : ThroughArrays scope name indices) :
    (∃ updated, (path name indices).write scope value = .ok updated) ↔
      ∃ old, (path name indices).read scope = .ok old := by
  induction indices using List.reverseRecOn generalizing value with
  | nil =>
      simp only [path_nil, write_named_eq_ok_iff, read_named_eq_ok_iff, Scope.update?,
        Option.map_eq_some_iff]
      rw [← Option.isSome_iff_exists, Scope.isSome_get?_iff_find?]
      constructor
      · rintro ⟨updated, id, hfind, -⟩
        exact ⟨id, hfind⟩
      · rintro ⟨id, hfind⟩
        exact ⟨_, id, hfind, rfl⟩
  | append_singleton indices index ih =>
      obtain ⟨elements, helements⟩ := h.last
      have hback : ∀ stored, ∃ updated, (path name indices).write scope stored = .ok updated :=
        fun stored => (ih h.init).mpr ⟨_, helements⟩
      have hread : (element (path name indices) index).read scope =
          (Value.array elements).elementAt index := by rw [read, helements]
      rw [path_concat, hread, ← Value.storeAt_array_isOk_iff]
      simp only [write_element_eq_ok_iff, helements]
      constructor
      · rintro ⟨updated, _, stored, ⟨⟩, hstore, -⟩
        exact ⟨stored, hstore⟩
      · rintro ⟨stored, hstore⟩
        obtain ⟨updated, hwrite⟩ := hback stored
        exact ⟨updated, _, stored, rfl, hstore, hwrite⟩

/-- What was written through arrays is read there. -/
theorem read_of_write (h : ThroughArrays scope name indices)
    (hwrite : (path name indices).write scope value = .ok updated) :
    (path name indices).read updated = .ok value := by
  induction indices using List.reverseRecOn generalizing value with
  | nil =>
      obtain ⟨id, hfind, rfl⟩ := Option.map_eq_some_iff.mp (write_named_eq_ok_iff.mp hwrite)
      exact read_named_eq_ok_iff.mpr (Scope.get?_insertIn_self hfind value)
  | append_singleton indices index ih =>
      obtain ⟨elements, helements⟩ := h.last
      rw [path_concat, write_element_eq_ok_iff, helements] at hwrite
      obtain ⟨_, stored, ⟨⟩, hstore, hback⟩ := hwrite
      rw [path_concat, read, ih h.init hback]
      exact Value.elementAt_of_storeAt hstore

/-- Off the way everything reads as before. -/
theorem read_of_write_of_diverges (h : ThroughArrays scope name indices)
    (hwrite : (path name indices).write scope value = .ok updated) {other : List Int64}
    (hshorter : ¬ other <+: indices) (hlonger : ¬ indices <+: other) :
    (path name other).read updated = (path name other).read scope := by
  induction indices using List.reverseRecOn generalizing value with
  | nil => exact absurd List.nil_prefix hlonger
  | append_singleton indices index ih =>
      obtain ⟨elements, helements⟩ := h.last
      rw [path_concat, write_element_eq_ok_iff, helements] at hwrite
      obtain ⟨_, stored, ⟨⟩, hstore, hback⟩ := hwrite
      by_cases hway : indices <+: other
      -- The ways part at the last index: both go on from one array, at different places.
      · obtain ⟨rest, rfl⟩ := hway
        cases rest with
        | nil => exact absurd (by simp) hshorter
        | cons asked rest =>
            have hasked : asked ≠ index := by
              rintro rfl
              exact hlonger (by simp)
            rw [path_append, List.foldl_cons]
            apply read_foldl_congr
            rw [read, read, read_of_write h.init hback, helements]
            exact Value.elementAt_of_storeAt_of_ne hstore hasked
      -- They part before, where the array written back is not on the other way.
      · refine ih h.init hback ?_ hway
        exact fun hother => hshorter (hother.trans (List.prefix_append indices [index]))

/-- A write through nested arrays, to a variable and indices of any number where everything that is
indexed is an array, is a change in place.  It succeeds just if the location can be read.  Then the
location has the new value; every location in the same variable whose indices part from these reads
as before, with the same value or the same fault; and of all bindings in all frames only the one of
the variable has changed, in the frame in which it is found. -/
theorem write_through_arrays (h : ThroughArrays scope name indices) (value : Value) :
    ((∃ updated, (path name indices).write scope value = .ok updated) ↔
      ∃ old, (path name indices).read scope = .ok old) ∧
    ∀ updated, (path name indices).write scope value = .ok updated →
      (path name indices).read updated = .ok value ∧
      (∀ other, ¬ other <+: indices → ¬ indices <+: other →
        (path name other).read updated = (path name other).read scope) ∧
      ∃ id root, scope.find? name = some id ∧ updated = scope.insertIn id name root ∧
        ∀ frame asked, (frame, asked) ≠ (id, name) →
          updated.getIn? frame asked = scope.getIn? frame asked := by
  refine ⟨write_isOk_iff h, fun updated hwrite => ⟨read_of_write h hwrite, ?_, ?_⟩⟩
  · exact fun other hshorter hlonger => read_of_write_of_diverges h hwrite hshorter hlonger
  · obtain ⟨id, root, hfind, rfl⟩ := rebinds_of_write hwrite
    refine ⟨id, root, hfind, rfl, fun frame asked hother => ?_⟩
    exact Scope.getIn?_insertIn_of_ne (Scope.mem_of_find? hfind) root hother

/-- A call whose frame lies over the global one, where two rows of numbers are bound.  The frame
below it belongs to another call and binds the same name. -/
def rowsInGlobals : Scope Value where
  globals := Std.ExtTreeMap.insert ∅ "rows" (.array [.array [.int 1, .int 2], .array [.int 3]])
  frames := #[⟨Std.ExtTreeMap.insert ∅ "rows" (.string "mine"), none, Scope.global, 1⟩,
    ⟨∅, none, Scope.global, 2⟩]
  pushed := 2

theorem write_into_rows :
    ThroughArrays rowsInGlobals "rows" [0, 1] ∧
    ∃ updated, (path "rows" [0, 1]).write rowsInGlobals (.int 9) = .ok updated ∧
      (path "rows" [0, 1]).read updated = .ok (.int 9) ∧
      (path "rows" [1, 0]).read updated = .ok (.int 3) ∧
      (path "rows" [0, 7, 0]).read updated = .error (.indexOutOfBounds 7 2) ∧
      updated.getIn? 1 "rows" = some (.string "mine") := by
  have harrays : ThroughArrays rowsInGlobals "rows" [0, 1] := by
    intro way hway hshort
    simp only [List.prefix_cons_iff, List.prefix_nil] at hway
    rcases hway with rfl | ⟨_, rfl, rfl | ⟨_, rfl, rfl⟩⟩
    · exact ⟨[.array [.int 1, .int 2], .array [.int 3]], rfl⟩
    · exact ⟨[.int 1, .int 2], rfl⟩
    · exact absurd rfl hshort
  obtain ⟨hwrites, hafter⟩ := write_through_arrays harrays (.int 9)
  obtain ⟨updated, hwrite⟩ := hwrites.mpr ⟨.int 2, rfl⟩
  obtain ⟨hread, hothers, id, root, hfind, -, hbindings⟩ := hafter updated hwrite
  obtain rfl : Scope.global = id := Option.some.inj hfind
  refine ⟨harrays, updated, hwrite, hread, ?_, ?_, ?_⟩
  · rw [hothers [1, 0] (by decide) (by decide)]
    rfl
  · rw [hothers [0, 7, 0] (by decide) (by decide)]
    rfl
  · rw [hbindings 1 "rows" (by decide)]
    rfl

end Location

end Quill
