import Quill.Proofs.ValueType

/-!
# Hereditary properties of values

A property of values is hereditary if plain values have it and arrays have it whenever their
elements do.  The operations on values, on locations and the built-in functions compute values with
such a property from values with it, whatever it is.  The faults with which they stop are ordinary
ones; only a write to what is not stored complains about its target.
-/

namespace Quill

/-- The faults that a part of an expression or statement may raise: all but those about the frame
stack, about the top of the program and about what can be assigned to. -/
def Fault.isOrdinary : Fault → Bool
  | popGlobalFrame | returnOutsideFunction | notAssignable => false
  | _ => true

namespace Value

/-- Whether the value is neither a function nor made of other values. -/
def isPlain : Value → Bool
  | int _ | float _ | string _ | bool _ | void => true
  | _ => false

/-- A property that plain values have, and that arrays have if their elements do. -/
structure Hereditary (P : Value → Prop) : Prop where
  plain : ∀ value, value.isPlain = true → P value
  array : ∀ elements, P (.array elements) ↔ ∀ value ∈ elements, P value

/-- Nothing is asked of values. -/
theorem hereditary_true : Hereditary fun _ => True where
  plain _ _ := trivial
  array _ := ⟨fun _ _ _ => trivial, fun _ => trivial⟩

section Faults

variable {aggregate value left right : Value} {index : Int64} {fault : Fault}

theorem isOrdinary_of_elementAt (h : aggregate.elementAt index = .error fault) :
    fault.isOrdinary = true := by
  unfold elementAt at h
  split at h
  · split at h
    · cases h
    · cases h; rfl
  · split at h
    · cases h
    · cases h; rfl
  · cases h; rfl

theorem isOrdinary_of_storeAt (h : aggregate.storeAt index value = .error fault) :
    fault.isOrdinary = true := by
  unfold storeAt at h
  split at h
  · split at h
    · cases h
    · cases h; rfl
  · split at h
    · cases h
    · cases h; rfl
  · cases h; rfl

theorem isOrdinary_of_exactInt {number : Int} (h : exactInt number = .error fault) :
    fault.isOrdinary = true := by
  unfold exactInt at h
  split at h
  · cases h
  · cases h; rfl

theorem isOrdinary_of_arithmetic {operator : Operator}
    (h : arithmetic operator left right = .error fault) : fault.isOrdinary = true := by
  unfold arithmetic at h
  split at h
  · unfold intArithmetic at h
    split at h
    · exact isOrdinary_of_exactInt h
    · exact isOrdinary_of_exactInt h
    · exact isOrdinary_of_exactInt h
    · split at h
      · cases h; rfl
      · exact isOrdinary_of_exactInt h
    · cases h; rfl
  · split at h
    · cases h
    · cases h; rfl

theorem isOrdinary_of_compare {operator : Operator}
    (h : compare operator left right = .error fault) : fault.isOrdinary = true := by
  unfold compare at h
  split at h
  · cases h
  · split at h
    · cases h
    · cases h; rfl

theorem isOrdinary_of_plus (h : plus left right = .error fault) : fault.isOrdinary = true := by
  unfold plus at h
  split at h
  all_goals first
    | exact isOrdinary_of_arithmetic h
    | (cases h; done)
    | (cases h; rfl)

theorem isOrdinary_of_apply {operator : Operator} (h : left.apply operator right = .error fault) :
    fault.isOrdinary = true := by
  unfold apply at h
  split at h
  · cases h
  · cases h
  · exact isOrdinary_of_plus h
  all_goals first
    | exact isOrdinary_of_arithmetic h
    | exact isOrdinary_of_compare h

end Faults

namespace Hereditary

variable {P : Value → Prop} {aggregate value left right result : Value} {index : Int64}

/-- Elements of arrays and characters of strings keep a hereditary property. -/
theorem elementAt (hP : Hereditary P) (haggregate : P aggregate)
    (h : aggregate.elementAt index = .ok result) : P result := by
  unfold Value.elementAt at h
  split at h
  · next elements =>
    split at h
    · next found hfound =>
      cases h
      obtain ⟨place, -, hplace⟩ := Option.bind_eq_some_iff.mp hfound
      exact (hP.array elements).mp haggregate result (List.mem_of_getElem? hplace)
    · cases h
  · split at h
    · cases h
      exact hP.plain _ rfl
    · cases h
  · cases h

/-- Storing keeps a hereditary property. -/
theorem storeAt (hP : Hereditary P) (haggregate : P aggregate) (hvalue : P value)
    (h : aggregate.storeAt index value = .ok result) : P result := by
  unfold Value.storeAt at h
  split at h
  · next elements value =>
    split at h
    · cases h
      rw [hP.array] at haggregate ⊢
      intro element hmem
      rcases List.mem_or_eq_of_mem_set hmem with hold | hnew
      · exact haggregate element hold
      · exact hnew ▸ hvalue
    · cases h
  · split at h
    · cases h
      exact hP.plain _ rfl
    · cases h
  · cases h

theorem exactInt (hP : Hereditary P) {number : Int} (h : exactInt number = .ok result) :
    P result := by
  unfold Quill.exactInt at h
  split at h
  · cases h
    exact hP.plain _ rfl
  · cases h

theorem arithmetic (hP : Hereditary P) {operator : Operator}
    (h : arithmetic operator left right = .ok result) : P result := by
  unfold Value.arithmetic at h
  split at h
  · unfold intArithmetic at h
    split at h
    · exact hP.exactInt h
    · exact hP.exactInt h
    · exact hP.exactInt h
    · split at h
      · cases h
      · exact hP.exactInt h
    · cases h
  · split at h
    · cases h
      exact hP.plain _ rfl
    · cases h

theorem compare (hP : Hereditary P) {operator : Operator}
    (h : compare operator left right = .ok result) : P result := by
  unfold Value.compare at h
  split at h
  · cases h
    exact hP.plain _ rfl
  · split at h
    · cases h
      exact hP.plain _ rfl
    · cases h

theorem plus (hP : Hereditary P) (hleft : P left) (hright : P right)
    (h : plus left right = .ok result) : P result := by
  unfold Value.plus at h
  split at h
  · exact hP.arithmetic h
  · exact hP.arithmetic h
  · exact hP.arithmetic h
  · exact hP.arithmetic h
  · cases h
    exact hP.plain _ rfl
  · cases h
    exact hP.plain _ rfl
  · next elements right _ =>
    cases h
    rw [hP.array] at hleft ⊢
    intro element hmem
    rcases List.mem_append.mp hmem with hold | hnew
    · exact hleft element hold
    · exact List.mem_singleton.mp hnew ▸ hright
  · cases h

/-- Operators keep a hereditary property. -/
theorem apply (hP : Hereditary P) {operator : Operator} (hleft : P left) (hright : P right)
    (h : left.apply operator right = .ok result) : P result := by
  cases operator with
  | equal | notEqual =>
      cases h
      exact hP.plain _ rfl
  | add => exact hP.plus hleft hright h
  | subtract | multiply | divide => exact hP.arithmetic h
  | less | lessEqual | greater | greaterEqual => exact hP.compare h

/-- Values of the result types of built-in functions have every hereditary property. -/
theorem ofBuiltin (hP : Hereditary P) (builtin : Builtin)
    (h : value.hasType builtin.result = true) : P value := by
  cases builtin with
  | print =>
      cases value with
      | void => exact hP.plain _ rfl
      | builtin native => cases native <;> simp [hasType, Builtin.signature, Builtin.result] at h
      | _ => simp [hasType, FnDecl.signature, Builtin.result, Builtin.signature] at h
  | toText | scalarToText =>
      obtain ⟨text, rfl⟩ := hasType_string h
      exact hP.plain _ rfl
  | randomInt | floatToInt | length =>
      obtain ⟨number, rfl⟩ := hasType_int h
      exact hP.plain _ rfl
  | randomFloat | intToFloat =>
      obtain ⟨number, rfl⟩ := hasType_float h
      exact hP.plain _ rfl
  | intArray =>
      obtain ⟨elements, rfl, helements⟩ := hasType_array h
      rw [hP.array]
      intro item hmem
      obtain ⟨number, rfl⟩ := hasType_int (helements item hmem)
      exact hP.plain _ rfl

end Hereditary

end Value

theorem Builtin.isOrdinary_of_mayRaise {builtin : Builtin} {arguments : List Value} {fault : Fault}
    (h : builtin.mayRaise arguments fault) : fault.isOrdinary = true := by
  cases fault with
  | popGlobalFrame | returnOutsideFunction | notAssignable => exact h.elim
  | _ => rfl

/-! ### Locations -/

namespace Location

/-- All values that a location holds have the property. -/
def Holds (P : Value → Prop) : Location → Prop
  | named _ => True
  | temporary value => P value
  | element base _ => base.Holds P

/-- Whether the location is a variable or lies inside of one. -/
def isStored : Location → Bool
  | named _ => true
  | temporary _ => false
  | element base _ => base.isStored

variable {P : Value → Prop} {scope : Scope Value} {location : Location} {value : Value}
  {fault : Fault}

theorem hereditary_of_read (hP : Value.Hereditary P)
    (hget : ∀ name value, scope.get? name = some value → P value) (hlocation : location.Holds P)
    (h : location.read scope = .ok value) : P value := by
  induction location generalizing value with
  | named name =>
      simp only [read] at h
      split at h
      · next found hfound =>
        cases h
        exact hget name value hfound
      · cases h
  | temporary held =>
      cases h
      exact hlocation
  | element base index ih =>
      simp only [read] at h
      split at h
      · next aggregate hread => exact hP.elementAt (ih hlocation hread) h
      · cases h

theorem isOrdinary_of_read (h : location.read scope = .error fault) :
    fault.isOrdinary = true := by
  induction location generalizing fault with
  | named name =>
      simp only [read] at h
      split at h
      · cases h
      · cases h; rfl
  | temporary held => cases h
  | element base index ih =>
      simp only [read] at h
      split at h
      · exact Value.isOrdinary_of_elementAt h
      · next hread => exact ih (hread.trans h)

/-- Only a location that is not stored raises a complaint about what can be assigned to. -/
theorem isOrdinary_of_write (h : location.write scope value = .error fault) :
    fault.isOrdinary = true ∨ fault = .notAssignable ∧ location.isStored = false := by
  induction location generalizing value with
  | named name =>
      simp only [write] at h
      split at h
      · cases h
      · cases h
        exact .inl rfl
  | temporary held =>
      cases h
      exact .inr ⟨rfl, rfl⟩
  | element base index ih =>
      simp only [write] at h
      split at h
      · split at h
        · exact ih h
        · next hstore =>
          cases h
          exact .inl (Value.isOrdinary_of_storeAt hstore)
      · next hread =>
        cases h
        exact .inl (isOrdinary_of_read hread)

/-- A write ends in one update of the variable, by a value that keeps a hereditary property. -/
theorem update_of_write {written : Scope Value} (hP : Value.Hereditary P)
    (hget : ∀ name value, scope.get? name = some value → P value) (hlocation : location.Holds P)
    (hvalue : P value) (h : location.write scope value = .ok written) :
    ∃ name stored, P stored ∧ scope.update? name stored = some written := by
  induction location generalizing value with
  | named name =>
      simp only [write] at h
      split at h
      · next hupdate =>
        cases h
        exact ⟨name, value, hvalue, hupdate⟩
      · cases h
  | temporary held => cases h
  | element base index ih =>
      simp only [write] at h
      split at h
      · next aggregate hread =>
        split at h
        · next updated hstore =>
          -- The aggregate that was read is written back with the value in it.
          have hbase : base.Holds P := hlocation
          have haggregate : P aggregate := hereditary_of_read hP hget hbase hread
          exact ih hbase (hP.storeAt haggregate hvalue hstore) h
        · cases h
      · cases h

end Location

end Quill
