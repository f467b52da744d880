import Quill.Builtin.Run

/-!
# Types of values

A value has a type by what it is: an array has the type of an array of whatever all its elements
are, so that the empty array has every array type, and a function has the type of its declaration.
The built-in functions are shown to give values of their result types, and to complain about their
arguments only if these do not have the types of their parameters.
-/

namespace Quill

namespace Value

mutual

/-- Whether a value has a type. -/
def hasType : Value → Ty → Bool
  | builtin native, type => decide (native.signature = type)
  | function decl _, type => decide (decl.signature = type)
  | int _, .int | float _, .float | string _, .string | bool _, .bool | void, .void => true
  | array elements, .array element => allHaveType elements element
  | _, _ => false

/-- Whether all values of a list have a type. -/
def allHaveType : List Value → Ty → Bool
  | [], _ => true
  | value :: values, type => value.hasType type && allHaveType values type

end

/-- Whether the values of a list have the types of another list, one by one. -/
def haveTypes : List Value → List Ty → Bool
  | [], [] => true
  | value :: values, type :: types => value.hasType type && haveTypes values types
  | _, _ => false

theorem allHaveType_iff {values : List Value} {type : Ty} :
    allHaveType values type = true ↔ ∀ value ∈ values, value.hasType type = true := by
  induction values with
  | nil => simp [allHaveType]
  | cons value values ih => simp [allHaveType, ih]

theorem length_eq_of_haveTypes {values : List Value} {types : List Ty}
    (h : haveTypes values types = true) : values.length = types.length := by
  induction values generalizing types with
  | nil =>
      cases types with
      | nil => rfl
      | cons type types => simp [haveTypes] at h
  | cons value values ih =>
      cases types with
      | nil => simp [haveTypes] at h
      | cons type types =>
          simp only [haveTypes, Bool.and_eq_true] at h
          simp [ih h.2]

theorem haveTypes_single {values : List Value} {type : Ty} (h : haveTypes values [type] = true) :
    ∃ value, values = [value] ∧ value.hasType type = true := by
  match values, h with
  | [value], h => exact ⟨value, rfl, by simpa [haveTypes] using h⟩
  | _ :: _ :: _, h => simp [haveTypes] at h

theorem haveTypes_pair {values : List Value} {first second : Ty}
    (h : haveTypes values [first, second] = true) :
    ∃ a b, values = [a, b] ∧ a.hasType first = true ∧ b.hasType second = true := by
  match values, h with
  | [a, b], h => exact ⟨a, b, rfl, by simpa [haveTypes] using h⟩
  | [_], h => simp [haveTypes] at h
  | _ :: _ :: _ :: _, h => simp [haveTypes] at h

/-! ### What the values of a type are -/

section Inversion

variable {value : Value}

theorem hasType_int (h : value.hasType .int = true) : ∃ number, value = int number := by
  cases value with
  | int number => exact ⟨number, rfl⟩
  | builtin native => cases native <;> simp [hasType, Builtin.signature] at h
  | _ => simp [hasType, FnDecl.signature] at h

theorem hasType_float (h : value.hasType .float = true) : ∃ number, value = float number := by
  cases value with
  | float number => exact ⟨number, rfl⟩
  | builtin native => cases native <;> simp [hasType, Builtin.signature] at h
  | _ => simp [hasType, FnDecl.signature] at h

theorem hasType_string (h : value.hasType .string = true) : ∃ text, value = string text := by
  cases value with
  | string text => exact ⟨text, rfl⟩
  | builtin native => cases native <;> simp [hasType, Builtin.signature] at h
  | _ => simp [hasType, FnDecl.signature] at h

theorem hasType_bool (h : value.hasType .bool = true) : ∃ flag, value = bool flag := by
  cases value with
  | bool flag => exact ⟨flag, rfl⟩
  | builtin native => cases native <;> simp [hasType, Builtin.signature] at h
  | _ => simp [hasType, FnDecl.signature] at h

theorem hasType_array {element : Ty} (h : value.hasType (.array element) = true) :
    ∃ elements, value = array elements ∧ ∀ item ∈ elements, item.hasType element = true := by
  cases value with
  | array elements => exact ⟨elements, rfl, allHaveType_iff.mp (by simpa [hasType] using h)⟩
  | builtin native => cases native <;> simp [hasType, Builtin.signature] at h
  | _ => simp [hasType, FnDecl.signature] at h

theorem hasType_function {parameters : List Ty} {result : Ty}
    (h : value.hasType (.function parameters result) = true) :
    (∃ native, value = builtin native ∧ native.signature = .function parameters result) ∨
      ∃ decl frame, value = function decl frame ∧
        decl.parameters.map (·.type) = parameters ∧ decl.returnType = result := by
  cases value with
  | builtin native => exact .inl ⟨native, rfl, by simpa [hasType] using h⟩
  | function decl frame =>
      exact .inr ⟨decl, frame, rfl, by simpa [hasType, FnDecl.signature] using h⟩
  | _ => simp [hasType] at h

theorem hasType_variadic {result : Ty} (h : value.hasType (.variadic result) = true) :
    ∃ native, value = builtin native ∧ native.signature = .variadic result := by
  cases value with
  | builtin native => exact ⟨native, rfl, by simpa [hasType] using h⟩
  | _ => simp [hasType, FnDecl.signature] at h

end Inversion

end Value

/-! ### Built-in functions -/

namespace Interact

/-- Whatever was exchanged before, the action gives a result with `after` or stops with a fault
with `stop`. -/
def Ensures {α : Type} (action : Interact α) (after : α → Prop) (stop : Fault → Prop) : Prop :=
  ∀ console,
    match action console with
    | .ok value _ => after value
    | .error fault _ => stop fault

namespace Ensures

variable {α β : Type} {host : Host} {stop : Fault → Prop}

theorem pure {value : α} {after : α → Prop} (h : after value) :
    Ensures (Pure.pure value) after stop :=
  fun _ => h

theorem fail {fault : Fault} {after : α → Prop} (h : stop fault) :
    Ensures (Interact.fail fault) after stop :=
  fun _ => h

theorem bind {action : Interact α} {next : α → Interact β} {after : β → Prop}
    (hfirst : Ensures action (fun _ => True) stop)
    (hnext : ∀ value, Ensures (next value) after stop) :
    Ensures (action >>= next) after stop := by
  intro console
  have hrun := hfirst console
  show match EStateM.bind action next console with
    | .ok value _ => after value
    | .error fault _ => stop fault
  unfold EStateM.bind
  cases hact : action console with
  | ok value final => exact hnext value final
  | error fault final =>
      rw [hact] at hrun
      exact hrun

theorem write {text : String} (h : ∀ reason, stop (.outputFailed reason)) :
    Ensures (Interact.write host text) (fun _ => True) stop := by
  intro console
  unfold Interact.write
  by_cases hempty : text.isEmpty = true
  · simp [hempty]
  · cases hrefusal : host.refusal console.written text with
    | none => simp [hempty]
    | some reason => simpa [hempty, hrefusal] using h reason

theorem draw : Ensures (Interact.draw host) (fun _ => True) stop :=
  fun _ => trivial

end Ensures

end Interact

namespace Builtin

/-- The type of what the function gives. -/
def result (builtin : Builtin) : Ty :=
  match builtin.signature with
  | .function _ result => result
  | .variadic result => result
  | other => other

/-- Whether the function takes the arguments. -/
def accepts (builtin : Builtin) (arguments : List Value) : Bool :=
  match builtin.signature with
  | .function parameters _ => Value.haveTypes arguments parameters
  | _ => true

/-- The faults with which the function may stop: those of its work, and a complaint about arguments
that it does not take. -/
def mayRaise (builtin : Builtin) (arguments : List Value) : Fault → Prop
  | .outputFailed _ | .emptyRange _ _ | .negativeLength _ | .invalidScalar _ => True
  | .uncheckedProgram _ => builtin.accepts arguments = false
  | _ => False

open Value in
/-- A built-in function gives a value of its result type. -/
theorem run_ensures (host : Host) (builtin : Builtin) (arguments : List Value) :
    Interact.Ensures (builtin.run host arguments) (·.hasType builtin.result = true)
      (builtin.mayRaise arguments) := by
  unfold run
  split
  · exact .bind (.write fun _ => trivial) fun _ => .pure rfl
  · exact .pure rfl
  · split
    · exact .fail trivial
    · exact .bind .draw fun _ => .pure rfl
  · split
    · exact .fail trivial
    · exact .bind .draw fun _ => .pure rfl
  · exact .pure rfl
  · exact .pure rfl
  · split
    · exact .fail trivial
    · refine .pure (allHaveType_iff.mpr fun value hmem => ?_)
      rw [List.eq_of_mem_replicate hmem]
      rfl
  · split
    · exact .pure rfl
    · exact .fail trivial
  · exact .pure rfl
  · next hprint htext hlength hint hfloat hitof hftoi harray hscalar =>
    refine .fail (show builtin.accepts arguments = false from ?_)
    -- Every list of arguments that fits was dealt with above.
    refine Bool.eq_false_iff.mpr fun haccepts => ?_
    cases builtin with
    | print => exact hprint rfl
    | toText => exact htext rfl
    | length => exact hlength rfl
    | randomInt =>
        obtain ⟨a, b, rfl, ha, hb⟩ := haveTypes_pair haccepts
        obtain ⟨lower, rfl⟩ := hasType_int ha
        obtain ⟨upper, rfl⟩ := hasType_int hb
        exact hint _ _ rfl rfl
    | randomFloat =>
        obtain ⟨a, b, rfl, ha, hb⟩ := haveTypes_pair haccepts
        obtain ⟨lower, rfl⟩ := hasType_float ha
        obtain ⟨upper, rfl⟩ := hasType_float hb
        exact hfloat _ _ rfl rfl
    | intToFloat =>
        obtain ⟨a, rfl, ha⟩ := haveTypes_single haccepts
        obtain ⟨number, rfl⟩ := hasType_int ha
        exact hitof _ rfl rfl
    | floatToInt =>
        obtain ⟨a, rfl, ha⟩ := haveTypes_single haccepts
        obtain ⟨number, rfl⟩ := hasType_float ha
        exact hftoi _ rfl rfl
    | intArray =>
        obtain ⟨a, b, rfl, ha, hb⟩ := haveTypes_pair haccepts
        obtain ⟨item, rfl⟩ := hasType_int ha
        obtain ⟨count, rfl⟩ := hasType_int hb
        exact harray _ _ rfl rfl
    | scalarToText =>
        obtain ⟨a, rfl, ha⟩ := haveTypes_single haccepts
        obtain ⟨code, rfl⟩ := hasType_int ha
        exact hscalar _ rfl rfl

end Builtin

end Quill
