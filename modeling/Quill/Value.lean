import Quill.Builtin
import Quill.Decimal.FloatText
import Quill.Scope
import Quill.Stmt

/-!
# Values

What a running program computes with.  Arrays are values like any other: storing into one makes a
new array, which the store then holds in place of the old one.
-/

namespace Quill

/-- A value of a running program. -/
inductive Value where
  | builtin (native : Builtin)
  /-- A declared function and the frame it was declared in. -/
  | function (decl : FnDecl Stmt) (frame : FrameHandle)
  | int (value : Int64)
  | float (value : Float)
  | string (value : String)
  | bool (value : Bool)
  | array (elements : List Value)
  | void
  deriving Inhabited

namespace Value

/-- The kind of value, as faults name it. -/
def typeName : Value → String
  | builtin _ | function _ _ => "function"
  | int _ => "int"
  | float _ => "float"
  | string _ => "string"
  | bool _ => "bool"
  | array _ => "array"
  | void => "void"

/-- An integer as a floating-point number, rounded to the nearest. -/
def floatOfInt (value : Int64) : Float :=
  Float.ofInt value.toInt

/-- A number as a floating-point number. -/
def toFloat? : Value → Option Float
  | int value => some (floatOfInt value)
  | float value => some value
  | _ => none

mutual

/-- The value as it is printed. -/
def text : Value → String
  | builtin native => native.name
  | function decl _ => decl.name
  | int value => toString value.toInt
  | float value => Decimal.floatText value
  | string value => value
  | bool true => "true"
  | bool false => "false"
  | array elements => "[" ++ textList elements ++ "]"
  | void => "void"

/-- Values as they are printed, separated by commas. -/
def textList : List Value → String
  | [] => ""
  | [value] => value.text
  | value :: others => value.text ++ ", " ++ textList others

end

mutual

/-- Whether two values are equal.  An integer equals the floating-point number nearest to it, arrays
are compared element by element, and functions are equal if they come from one declaration in one
frame. -/
def equals : Value → Value → Bool
  | builtin a, builtin b => a == b
  | function a frameA, function b frameB => a.id == b.id && frameA == frameB
  | int a, int b => a == b
  | float a, float b => a == b
  | int a, float b => floatOfInt a == b
  | float a, int b => a == floatOfInt b
  | string a, string b => a == b
  | bool a, bool b => a == b
  | array a, array b => equalsList a b
  | void, void => true
  | _, _ => false

/-- Whether two lists of values are equal element by element. -/
def equalsList : List Value → List Value → Bool
  | [], [] => true
  | a :: as, b :: bs => a.equals b && equalsList as bs
  | _, _ => false

end

end Value

end Quill
