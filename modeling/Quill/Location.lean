import Quill.Value

/-!
# Locations

A location is where a value is read from and written to: a variable, an element of another location,
or a temporary that holds the result of an expression.  Writing to an element rebuilds the whole
array or string around it and writes that back, down to the variable that owns it.
-/

namespace Quill

/-- Where a value is read from and written to. -/
inductive Location where
  | named (name : String)
  /-- A value that is stored nowhere; it can only be read. -/
  | temporary (value : Value)
  | element (base : Location) (index : Int64)
  deriving Inhabited

namespace Value

/-- The place in a list that an integer denotes; negative integers denote none. -/
def place? (index : Int64) : Option Nat :=
  if index < 0 then none else some index.toInt.toNat

/-- The element of an array, or the character of a string, at an index. -/
def elementAt (aggregate : Value) (index : Int64) : Except Fault Value :=
  match aggregate with
  | .array elements =>
    match (place? index).bind (elements[·]?) with
    | some value => .ok value
    | none => .error (.indexOutOfBounds index elements.length)
  | .string text =>
    match (place? index).bind (text.toList[·]?) with
    | some c => .ok (.string (String.singleton c))
    | none => .error (.indexOutOfBounds index text.toList.length)
  | other => .error (.uncheckedProgram ("indexing into " ++ other.typeName))

/-- The aggregate with a value stored at an index.  In an array the value replaces the element
there.  Into a string it is inserted before the character there, so the end of the string is a
place too. -/
def storeAt (aggregate : Value) (index : Int64) (value : Value) : Except Fault Value :=
  match aggregate, value with
  | .array elements, value =>
    match (place? index).filter (· < elements.length) with
    | some place => .ok (.array (elements.set place value))
    | none => .error (.indexOutOfBounds index elements.length)
  | .string text, .string inserted =>
    match (place? index).filter (· ≤ text.toList.length) with
    | some place =>
      let chars := text.toList
      .ok (.string (String.ofList (chars.take place ++ inserted.toList ++ chars.drop place)))
    | none => .error (.indexOutOfBounds index text.toList.length)
  | aggregate, value =>
    .error (.uncheckedProgram ("storing " ++ value.typeName ++ " into " ++ aggregate.typeName))

end Value

namespace Location

/-- The value at a location. -/
def read (scope : Scope Value) : Location → Except Fault Value
  | named name =>
    match scope.get? name with
    | some value => .ok value
    | none => .error (.uncheckedProgram ("unbound identifier '" ++ name ++ "'"))
  | temporary value => .ok value
  | element base index =>
    match base.read scope with
    | .ok aggregate => aggregate.elementAt index
    | .error fault => .error fault

/-- The scope after a value is written to a location. -/
def write (scope : Scope Value) : Location → Value → Except Fault (Scope Value)
  | named name, value =>
    match scope.update? name value with
    | some updated => .ok updated
    | none =>
      .error (.uncheckedProgram ("assignment to unbound identifier '" ++ name ++ "'"))
  | temporary _, _ => .error .notAssignable
  | element base index, value =>
    match base.read scope with
    | .ok aggregate =>
      match aggregate.storeAt index value with
      | .ok updated => base.write scope updated
      | .error fault => .error fault
    | .error fault => .error fault

end Location

end Quill
