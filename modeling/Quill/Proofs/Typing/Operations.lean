import Quill.Proofs.Hereditary
import Quill.Proofs.Inference

/-!
# Operations on values of the right types

The operators, the reading and writing of elements and the built-in functions, applied to values of
the types that the checker asks for: the result has the type that the checker assumes, and a fault
is one that depends on the values and not on their types.
-/

namespace Quill

/-- Whether the fault depends on the values that a program computes, and not on their types. -/
def Fault.dependsOnValues : Fault → Bool
  | invalidScalar _ | indexOutOfBounds _ _ | divisionByZero | integerOverflow | emptyRange _ _
  | negativeLength _ | outputFailed _ => true
  | _ => false

/-- Elements of the one type are of the other: those of an array, or the characters of a string. -/
def Ty.Contains (aggregate element : Ty) : Prop :=
  aggregate = .array element ∨ aggregate = .string ∧ element = .string

namespace Value

/-- The result is a value of the type, or a fault that depends on the values. -/
def Yields (type : Ty) : Except Fault Value → Prop
  | .ok value => value.hasType type = true
  | .error fault => fault.dependsOnValues = true

variable {left right value aggregate : Value} {operator : Operator}
  {leftType rightType aggregateType type : Ty} {index : Int64}

theorem hasType_numeric (h : value.hasType type = true) (hnumeric : type.isNumeric = true) :
    (∃ number, value = .int number ∧ type = .int) ∨
      ∃ number, value = .float number ∧ type = .float := by
  cases type with
  | int =>
      obtain ⟨number, rfl⟩ := hasType_int h
      exact .inl ⟨number, rfl, rfl⟩
  | float =>
      obtain ⟨number, rfl⟩ := hasType_float h
      exact .inr ⟨number, rfl, rfl⟩
  | _ => exact Bool.noConfusion hnumeric

theorem yields_exactInt (number : Int) : Yields .int (exactInt number) := by
  unfold exactInt
  split
  · rfl
  · rfl

theorem yields_intArithmetic (operator : Operator) (first second : Int64) :
    Yields .int (intArithmetic operator first second) := by
  unfold intArithmetic
  split
  · exact yields_exactInt _
  · exact yields_exactInt _
  · exact yields_exactInt _
  · split
    · rfl
    · exact yields_exactInt _
  · rfl

theorem yields_floatArithmetic (hleft : left.hasType leftType = true)
    (hright : right.hasType rightType = true) (hfirst : leftType.isNumeric = true)
    (hsecond : rightType.isNumeric = true) (hfloat : leftType = .float ∨ rightType = .float) :
    Yields .float (arithmetic operator left right) := by
  rcases hasType_numeric hleft hfirst with ⟨a, rfl, rfl⟩ | ⟨a, rfl, rfl⟩
  · rcases hasType_numeric hright hsecond with ⟨b, rfl, rfl⟩ | ⟨b, rfl, rfl⟩
    · rcases hfloat with hfloat | hfloat <;> cases hfloat
    · rfl
  · rcases hasType_numeric hright hsecond with ⟨b, rfl, rfl⟩ | ⟨b, rfl, rfl⟩
    · rfl
    · rfl

theorem plus_eq_arithmetic (hleft : left.hasType leftType = true)
    (hright : right.hasType rightType = true) (hfirst : leftType.isNumeric = true)
    (hsecond : rightType.isNumeric = true) : plus left right = arithmetic .add left right := by
  rcases hasType_numeric hleft hfirst with ⟨a, rfl, rfl⟩ | ⟨a, rfl, rfl⟩
  · rcases hasType_numeric hright hsecond with ⟨b, rfl, rfl⟩ | ⟨b, rfl, rfl⟩
    · rfl
    · rfl
  · rcases hasType_numeric hright hsecond with ⟨b, rfl, rfl⟩ | ⟨b, rfl, rfl⟩
    · rfl
    · rfl

theorem yields_compare (hleft : left.hasType leftType = true)
    (hright : right.hasType rightType = true) (hfirst : leftType.isNumeric = true)
    (hsecond : rightType.isNumeric = true) : Yields .bool (compare operator left right) := by
  rcases hasType_numeric hleft hfirst with ⟨a, rfl, rfl⟩ | ⟨a, rfl, rfl⟩
  · rcases hasType_numeric hright hsecond with ⟨b, rfl, rfl⟩ | ⟨b, rfl, rfl⟩
    · rfl
    · rfl
  · rcases hasType_numeric hright hsecond with ⟨b, rfl, rfl⟩ | ⟨b, rfl, rfl⟩
    · rfl
    · rfl

theorem yields_join (hleft : left.hasType leftType = true)
    (hright : right.hasType rightType = true) (h : leftType = .string ∨ rightType = .string) :
    Yields .string (plus left right) := by
  rcases h with rfl | rfl
  · obtain ⟨text, rfl⟩ := hasType_string hleft
    rfl
  · obtain ⟨text, rfl⟩ := hasType_string hright
    cases left with
    | _ => rfl

theorem yields_append (hleft : left.hasType (.array type) = true)
    (hright : right.hasType type = true) (h : type ≠ .string) :
    Yields (.array type) (plus left right) := by
  obtain ⟨elements, rfl, helements⟩ := hasType_array hleft
  -- A string on the right would be joined to the text of the array instead.
  have hplus : plus (.array elements) right = .ok (.array (elements ++ [right])) := by
    cases right with
    | string text =>
        cases type with
        | string => exact absurd rfl h
        | _ => simp [hasType] at hright
    | _ => rfl
  rw [hplus]
  refine allHaveType_iff.mpr fun item hmem => ?_
  rcases List.mem_append.mp hmem with hold | hnew
  · exact helements item hold
  · exact List.mem_singleton.mp hnew ▸ hright

/-- An operator between operands that it takes gives a value of the type that it is said to give. -/
theorem yields_apply (h : operator.Takes leftType rightType type)
    (hleft : left.hasType leftType = true) (hright : right.hasType rightType = true) :
    Yields type (left.apply operator right) := by
  cases h with
  | equality h =>
      cases operator with
      | equal | notEqual => rfl
      | _ => exact Bool.noConfusion h
  | text h => exact yields_join hleft hright h
  | append h => exact yields_append hleft hright h
  | ordering h hfirst hsecond =>
      cases operator with
      | less | lessEqual | greater | greaterEqual =>
          exact yields_compare hleft hright hfirst hsecond
      | _ => exact Bool.noConfusion h
  | integers h =>
      obtain ⟨a, rfl⟩ := hasType_int hleft
      obtain ⟨b, rfl⟩ := hasType_int hright
      cases operator with
      | add => exact yields_intArithmetic .add a b
      | subtract => exact yields_intArithmetic .subtract a b
      | multiply => exact yields_intArithmetic .multiply a b
      | divide => exact yields_intArithmetic .divide a b
      | _ => exact Bool.noConfusion h
  -- Addition looks for texts and arrays first, the other operators compute at once.
  | floats h hfirst hsecond hfloat =>
      have harithmetic : ∀ operator, Yields .float (arithmetic operator left right) := fun _ =>
        yields_floatArithmetic hleft hright hfirst hsecond hfloat
      cases operator with
      | add =>
          have hadd := harithmetic .add
          rw [← plus_eq_arithmetic hleft hright hfirst hsecond] at hadd
          exact hadd
      | subtract => exact harithmetic .subtract
      | multiply => exact harithmetic .multiply
      | divide => exact harithmetic .divide
      | _ => exact Bool.noConfusion h

theorem yields_elementAt (h : aggregateType.Contains type)
    (haggregate : aggregate.hasType aggregateType = true) :
    Yields type (aggregate.elementAt index) := by
  rcases h with rfl | ⟨rfl, rfl⟩
  · obtain ⟨elements, rfl, helements⟩ := hasType_array haggregate
    simp only [elementAt]
    split
    · next item hitem =>
      obtain ⟨place, -, hplace⟩ := Option.bind_eq_some_iff.mp hitem
      exact helements item (List.mem_of_getElem? hplace)
    · rfl
  · obtain ⟨text, rfl⟩ := hasType_string haggregate
    simp only [elementAt]
    split
    · rfl
    · rfl

theorem yields_storeAt (h : aggregateType.Contains type)
    (haggregate : aggregate.hasType aggregateType = true) (hvalue : value.hasType type = true) :
    Yields aggregateType (aggregate.storeAt index value) := by
  rcases h with rfl | ⟨rfl, rfl⟩
  · obtain ⟨elements, rfl, helements⟩ := hasType_array haggregate
    simp only [storeAt]
    split
    · refine allHaveType_iff.mpr fun item hmem => ?_
      rcases List.mem_or_eq_of_mem_set hmem with hold | rfl
      · exact helements item hold
      · exact hvalue
    · rfl
  · obtain ⟨text, rfl⟩ := hasType_string haggregate
    obtain ⟨inserted, rfl⟩ := hasType_string hvalue
    simp only [storeAt]
    split
    · rfl
    · rfl

end Value

/-- A built-in function that takes its arguments stops only for reasons that depend on them. -/
theorem Builtin.dependsOnValues_of_mayRaise {builtin : Builtin} {arguments : List Value}
    {fault : Fault} (haccepts : builtin.accepts arguments = true)
    (h : builtin.mayRaise arguments fault) : fault.dependsOnValues = true := by
  cases fault with
  | invalidScalar _ | emptyRange _ _ | negativeLength _ | outputFailed _ => rfl
  | uncheckedProgram what =>
      have hrejects : builtin.accepts arguments = false := h
      rw [haccepts] at hrejects
      exact Bool.noConfusion hrejects
  | _ => exact h.elim

end Quill
