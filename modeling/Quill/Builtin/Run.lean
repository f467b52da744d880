import Quill.Machine

/-!
# Running built-in functions

A built-in function sees its arguments and the surroundings of the program, never the names in
scope.
-/

namespace Quill

/-- An action on the surroundings of a program. -/
abbrev Interact := EStateM Fault Console

/-- The texts of values in a row. -/
def Value.concat (values : List Value) : String :=
  values.foldl (fun text value => text ++ value.text) ""

/-- The number of elements of an array or characters of a string; anything else has none. -/
def Value.length : Value → Nat
  | .array elements => elements.length
  | .string text => text.toList.length
  | _ => 0

/-- The character with a given code, unless the code is a surrogate or out of range. -/
def scalar? (code : Int64) : Option Char :=
  if 0 ≤ code then
    let value := code.toInt.toNat
    if value.isValidChar then some (Char.ofNat value) else none
  else
    none

namespace Interact

/-- Stops with a fault. -/
def fail {α : Type} (fault : Fault) : Interact α := fun console => .error fault console

/-- Writes a text.  Nothing is written for the empty text, so it is never refused. -/
def write (host : Host) (text : String) : Interact Unit := fun console =>
  if text.isEmpty then
    .ok () console
  else
    match host.refusal console.written text with
    | some reason => .error (.outputFailed reason) console
    | none => .ok () { console with written := console.written.push text }

/-- The next random draw. -/
def draw (host : Host) : Interact Draw := fun console =>
  .ok (host.draw console.drawn) { console with drawn := console.drawn + 1 }

end Interact

open Interact in
/-- Runs a built-in function on its arguments. -/
def Builtin.run (host : Host) (builtin : Builtin) (arguments : List Value) : Interact Value :=
  match builtin, arguments with
  | .print, arguments => do
    write host (Value.concat arguments)
    return .void
  | .toText, arguments => return .string (Value.concat arguments)
  | .randomInt, [.int lower, .int upper] =>
    if upper ≤ lower then
      fail (.emptyRange (toString lower.toInt) (toString upper.toInt))
    else do
      let selection ← draw host
      return .int (selection.int lower upper)
  | .randomFloat, [.float lower, .float upper] =>
    if upper ≤ lower || !lower.isFinite || !upper.isFinite then
      fail (.emptyRange (Decimal.floatText lower) (Decimal.floatText upper))
    else do
      let selection ← draw host
      return .float (selection.float lower upper)
  | .intToFloat, [.int value] => return .float (Value.floatOfInt value)
  | .floatToInt, [.float value] => return .int (Decimal.Binary64.ofFloat value).truncate
  | .intArray, [.int value, .int count] =>
    if count < 0 then
      fail (.negativeLength count)
    else
      return .array (List.replicate count.toInt.toNat (.int value))
  | .scalarToText, [.int code] =>
    match scalar? code with
    | some c => return .string (String.singleton c)
    | none => fail (.invalidScalar code)
  | .length, arguments =>
    return .int (Int64.ofNat ((arguments.head?.map Value.length).getD 0))
  | builtin, _ =>
    fail (.uncheckedProgram ("the arguments passed to '" ++ builtin.name ++ "'"))

/-- A random integer is an integer of the range that it was asked from, and costs one draw. -/
theorem Builtin.randomInt_inRange {host : Host} {lower upper : Int64} {console after : Console}
    {value : Value} (h : randomInt.run host [.int lower, .int upper] console = .ok value after) :
    ∃ selected, value = .int selected ∧ lower ≤ selected ∧ selected < upper ∧
      after = { console with drawn := console.drawn + 1 } := by
  rw [run] at h
  split at h
  · cases h
  · next hnonempty =>
    obtain ⟨rfl, rfl⟩ := EStateM.Result.ok.inj h
    have hrange := (host.draw console.drawn).int_inRange lower upper (Int64.not_le.mp hnonempty)
    exact ⟨_, rfl, hrange.1, hrange.2, rfl⟩

end Quill
