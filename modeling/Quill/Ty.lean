/-!
# Types

The static types of the language.  They are written in annotations and inferred for every
expression.  Function types are never written: they arise from declarations, and the built-in
functions that take any arguments have a variadic type.
-/

namespace Quill

/-- A static type. -/
inductive Ty where
  | int
  | float
  | string
  | bool
  | void
  | array (element : Ty)
  /-- A function with a fixed list of parameters. -/
  | function (parameters : List Ty) (result : Ty)
  /-- A function that takes any arguments. -/
  | variadic (result : Ty)
  deriving Inhabited

namespace Ty

mutual

/-- Compares two types. -/
def same : Ty → Ty → Bool
  | int, int | float, float | string, string | bool, bool | void, void => true
  | array a, array b => same a b
  | function ps a, function qs b => sameList ps qs && same a b
  | variadic a, variadic b => same a b
  | _, _ => false

/-- Compares two lists of types. -/
def sameList : List Ty → List Ty → Bool
  | [], [] => true
  | a :: as, b :: bs => same a b && sameList as bs
  | _, _ => false

end

mutual

theorem same_iff : (a b : Ty) → (same a b = true ↔ a = b)
  | int, b | float, b | string, b | bool, b | void, b => by cases b <;> simp [same]
  | array a, b => by cases b <;> simp [same, same_iff a]
  | function ps a, b => by cases b <;> simp [same, same_iff a, sameList_iff ps]
  | variadic a, b => by cases b <;> simp [same, same_iff a]

theorem sameList_iff : (as bs : List Ty) → (sameList as bs = true ↔ as = bs)
  | [], bs => by cases bs <;> simp [sameList]
  | a :: as, bs => by cases bs <;> simp [sameList, same_iff a, sameList_iff as]

end

instance : DecidableEq Ty := fun a b => decidable_of_iff (same a b = true) (same_iff a b)

/-- Whether values of the type are numbers. -/
def isNumeric : Ty → Bool
  | int | float => true
  | _ => false

mutual

/-- The type as it is shown: `[T]` for arrays, `fn(A, B) R` for functions and `fn(...) R` for
functions that take any arguments. -/
def text : Ty → String
  | int => "int"
  | float => "float"
  | string => "string"
  | bool => "bool"
  | void => "void"
  | array element => "[" ++ element.text ++ "]"
  | function parameters result => "fn(" ++ textList parameters ++ ") " ++ result.text
  | variadic result => "fn(...) " ++ result.text

/-- A list of types as it is shown, separated by commas. -/
def textList : List Ty → String
  | [] => ""
  | [ty] => ty.text
  | ty :: others => ty.text ++ ", " ++ textList others

end

end Ty

end Quill
