import Quill.Proofs.Hereditary
import Quill.Proofs.Locals

/-!
# Complaints about names that are not bound

A running program stops with a complaint when it reads, assigns to or calls a name that is not
bound.  Such a complaint tells which name it is about, and no other fault is worded like one.  So
the operators, the built-in functions and the accesses to elements never raise one, and a location
raises one only about the variable that it lies in.
-/

namespace Quill

/-- How a program uses a name. -/
inductive Use where
  | read
  | assign
  | call
  deriving DecidableEq

namespace Use

/-- The words of the complaint in front of the name. -/
def phrase : Use → String
  | read => "unbound identifier '"
  | assign => "assignment to unbound identifier '"
  | call => "call to unbound '"

/-- The complaint about a use of a name that is not bound. -/
def complaint (use : Use) (name : String) : Fault :=
  .uncheckedProgram (use.phrase ++ name ++ "'")

end Use

namespace Fault

/-- The first two letters of a complaint about the program. -/
def opening : Fault → List Char
  | uncheckedProgram what => what.toList.take 2
  | _ => []

/-- Whether the fault opens like the complaint about a name that is not bound. -/
def isUnbound (fault : Fault) : Bool :=
  [Use.read, Use.assign, Use.call].any fun use => fault.opening == use.phrase.toList.take 2

theorem isUnbound_complaint (use : Use) (name : String) :
    (use.complaint name).isUnbound = true := by
  cases use <;> simp [Use.complaint, Use.phrase, isUnbound, opening]

/-- A complaint tells the use and the name that it is about. -/
theorem complaint_inj {use other : Use} {name asked : String}
    (h : use.complaint name = other.complaint asked) : use = other ∧ name = asked := by
  have htext := congrArg String.toList (Fault.uncheckedProgram.inj h)
  cases use <;> cases other <;>
    simp_all [Use.phrase, String.toList_append, String.toList_inj]

/-- A fault that does not open like one is no complaint about a name that is not bound. -/
theorem ne_complaint {fault : Fault} (h : fault.isUnbound = false) (use : Use) (name : String) :
    fault ≠ use.complaint name := by
  rintro rfl
  rw [isUnbound_complaint] at h
  cases h

end Fault

/-! ### Operations on values -/

namespace Value

variable {aggregate value left right : Value} {index : Int64} {fault : Fault}

theorem isUnbound_operandFault (operator : Operator) (left right : Value) :
    (operandFault operator left right).isUnbound = false := by
  cases left <;> simp [operandFault, typeName, Fault.isUnbound, Fault.opening, Use.phrase]

theorem isUnbound_of_elementAt (h : aggregate.elementAt index = .error fault) :
    fault.isUnbound = false := by
  unfold elementAt at h
  split at h
  · split at h
    · cases h
    · cases h; rfl
  · split at h
    · cases h
    · cases h; rfl
  · cases h
    simp [Fault.isUnbound, Fault.opening, Use.phrase]

theorem isUnbound_of_storeAt (h : aggregate.storeAt index value = .error fault) :
    fault.isUnbound = false := by
  unfold storeAt at h
  split at h
  · split at h
    · cases h
    · cases h; rfl
  · split at h
    · cases h
    · cases h; rfl
  · cases h
    simp [Fault.isUnbound, Fault.opening, Use.phrase]

theorem isUnbound_of_exactInt {number : Int} (h : exactInt number = .error fault) :
    fault.isUnbound = false := by
  unfold exactInt at h
  split at h
  · cases h
  · cases h; rfl

theorem isUnbound_of_arithmetic {operator : Operator}
    (h : arithmetic operator left right = .error fault) : fault.isUnbound = false := by
  unfold arithmetic at h
  split at h
  · unfold intArithmetic at h
    split at h
    · exact isUnbound_of_exactInt h
    · exact isUnbound_of_exactInt h
    · exact isUnbound_of_exactInt h
    · split at h
      · cases h; rfl
      · exact isUnbound_of_exactInt h
    · cases h; rfl
  · split at h
    · cases h
    · cases h
      exact isUnbound_operandFault ..

theorem isUnbound_of_compare {operator : Operator}
    (h : compare operator left right = .error fault) : fault.isUnbound = false := by
  unfold compare at h
  split at h
  · cases h
  · split at h
    · cases h
    · cases h
      exact isUnbound_operandFault ..

theorem isUnbound_of_plus (h : plus left right = .error fault) : fault.isUnbound = false := by
  unfold plus at h
  split at h
  all_goals first
    | exact isUnbound_of_arithmetic h
    | (cases h; done)
    | (cases h; exact isUnbound_operandFault ..)

/-- Operators complain about their operands only. -/
theorem isUnbound_of_apply {operator : Operator} (h : left.apply operator right = .error fault) :
    fault.isUnbound = false := by
  cases operator with
  | equal | notEqual => cases h
  | add => exact isUnbound_of_plus h
  | subtract | multiply | divide => exact isUnbound_of_arithmetic h
  | less | lessEqual | greater | greaterEqual => exact isUnbound_of_compare h

end Value

/-- Built-in functions complain about their arguments only. -/
theorem Builtin.run_isUnbound (host : Host) (builtin : Builtin) (arguments : List Value) :
    Interact.Ensures (builtin.run host arguments) (fun _ => True) (·.isUnbound = false) := by
  unfold run
  split
  · exact .bind (.write fun _ => rfl) fun _ => .pure trivial
  · exact .pure trivial
  · split
    · exact .fail rfl
    · exact .bind .draw fun _ => .pure trivial
  · split
    · exact .fail rfl
    · exact .bind .draw fun _ => .pure trivial
  · exact .pure trivial
  · exact .pure trivial
  · split
    · exact .fail rfl
    · exact .pure trivial
  · split
    · exact .pure trivial
    · exact .fail rfl
  · exact .pure trivial
  · exact .fail (by simp [Fault.isUnbound, Fault.opening, Use.phrase])

/-! ### Locations -/

namespace Location

/-- The variable that the location is or lies in. -/
def root? : Location → Option String
  | named name => some name
  | temporary _ => none
  | element base _ => base.root?

variable {P : Value → Prop} {scope written : Scope Value} {location : Location} {value : Value}
  {fault : Fault}

/-- What is read has a hereditary property if the temporaries and the variable have it. -/
theorem value_of_read (hP : Value.Hereditary P)
    (hroot : ∀ name found, location.root? = some name → scope.get? name = some found → P found)
    (hlocation : location.Holds P) (h : location.read scope = .ok value) : P value := by
  induction location generalizing value with
  | named name =>
      simp only [read] at h
      split at h
      · next found hfound =>
        cases h
        exact hroot name value rfl hfound
      · cases h
  | temporary held =>
      cases h
      exact hlocation
  | element base index ih =>
      simp only [read] at h
      split at h
      · next aggregate hread => exact hP.elementAt (ih hroot hlocation hread) h
      · cases h

/-- A read that complains about a name does so because the variable is not bound. -/
theorem complaint_of_read (h : location.read scope = .error fault)
    (hunbound : fault.isUnbound = true) :
    ∃ name, location.root? = some name ∧ scope.get? name = none ∧
      fault = Use.read.complaint name := by
  induction location generalizing fault with
  | named name =>
      simp only [read] at h
      split at h
      · cases h
      · next hget =>
        cases h
        exact ⟨name, rfl, hget, rfl⟩
  | temporary held => cases h
  | element base index ih =>
      simp only [read] at h
      split at h
      · rw [Value.isUnbound_of_elementAt h] at hunbound
        cases hunbound
      · next hread =>
        cases h
        exact ih hread hunbound

/-- A write ends in one update of the variable, by a value that keeps a hereditary property. -/
theorem update_root_of_write (hP : Value.Hereditary P)
    (hroot : ∀ name found, location.root? = some name → scope.get? name = some found → P found)
    (hlocation : location.Holds P) (hvalue : P value)
    (h : location.write scope value = .ok written) :
    ∃ name stored, P stored ∧ scope.update? name stored = some written := by
  induction location generalizing value with
  | named name =>
      simp only [write] at h
      split at h
      · next hupdate =>
        cases h
        exact ⟨name, value, hvalue, hupdate⟩
      · cases h
  | temporary held => cases h
  | element base index ih =>
      simp only [write] at h
      split at h
      · next aggregate hread =>
        split at h
        · next updated hstore =>
          -- An element lies in the same variable as the aggregate around it.
          have hsame : ∀ name found, base.root? = some name → scope.get? name = some found →
              P found := hroot
          have haggregate : P aggregate := value_of_read hP hsame hlocation hread
          exact ih hsame hlocation (hP.storeAt haggregate hvalue hstore) h
        · cases h
      · cases h

/-- A write that complains about a name does so because the variable is not bound. -/
theorem complaint_of_write (h : location.write scope value = .error fault)
    (hunbound : fault.isUnbound = true) :
    ∃ use name, location.root? = some name ∧ scope.get? name = none ∧
      fault = Use.complaint use name := by
  induction location generalizing value with
  | named name =>
      simp only [write] at h
      split at h
      · cases h
      · next hupdate =>
        cases h
        exact ⟨.assign, name, rfl, Scope.update?_eq_none_iff.mp hupdate, rfl⟩
  | temporary held =>
      cases h
      cases hunbound
  | element base index ih =>
      simp only [write] at h
      split at h
      · split at h
        · exact ih h
        · next hstore =>
          cases h
          rw [Value.isUnbound_of_storeAt hstore] at hunbound
          cases hunbound
      · next hread =>
        cases h
        obtain ⟨name, hroot, hcomplaint⟩ := complaint_of_read hread hunbound
        exact ⟨.read, name, hroot, hcomplaint⟩

end Location

end Quill
