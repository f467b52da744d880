import Quill.Ty

/-!
# Built-in functions

The functions that every program can call.
-/

namespace Quill

/-- A built-in function. -/
inductive Builtin where
  | print
  | toText
  | randomInt
  | randomFloat
  | intToFloat
  | floatToInt
  | intArray
  | scalarToText
  | length
  deriving DecidableEq, Inhabited

namespace Builtin

/-- Every built-in function. -/
def all : List Builtin :=
  [print, toText, randomInt, randomFloat, intToFloat, floatToInt, intArray, scalarToText, length]

/-- The name by which programs call the function. -/
def name : Builtin → String
  | print => "print"
  | toText => "to_string"
  | randomInt => "random_int"
  | randomFloat => "random_float"
  | intToFloat => "itof"
  | floatToInt => "ftoi"
  | intArray => "int_array"
  | scalarToText => "unicode_to_string"
  | length => "len"

/-- The function of a given name. -/
def ofName? (text : String) : Option Builtin :=
  all.find? fun builtin => builtin.name == text

/-- The type of the function. -/
def signature : Builtin → Ty
  | print => .variadic .void
  | toText => .variadic .string
  | randomInt => .function [.int, .int] .int
  | randomFloat => .function [.float, .float] .float
  | intToFloat => .function [.int] .float
  | floatToInt => .function [.float] .int
  | intArray => .function [.int, .int] (.array .int)
  | scalarToText => .function [.int] .string
  | length => .variadic .int

end Builtin

end Quill
