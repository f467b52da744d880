import Quill.Parser

/-!
# Type annotations

An annotation is the name of a simple type, or an annotation in square brackets for an array.
-/

namespace Quill

/-- The type with a simple name. -/
def Ty.ofName? : String → Option Ty
  | "int" => some .int
  | "float" => some .float
  | "string" => some .string
  | "bool" => some .bool
  | "void" => some .void
  | _ => none

namespace Parse

/-- Reads the name of a simple type. -/
def typeName : Parse (Ty × Span) := do
  let token ← expect .identifier
  match Ty.ofName? token.value with
  | some ty => return (ty, token.span)
  | none => throw (.of (.notAType token.value) token.span)

/-- Reads an annotation with fewer opening brackets than the bound. -/
def annotationWithin : Nat → Parse (Ty × Span)
  | 0 => unexpected
  | bound + 1 => do
    if (← currentKind) == .openBracket then
      let opening ← advance
      let (element, _) ← annotationWithin bound
      let closing ← expect .closeBracket
      return (.array element, opening.span.spanning closing.span)
    else
      typeName

/-- Reads an annotation, and gives the type with the text it covers. -/
def annotation : Parse (Ty × Span) :=
  bounded annotationWithin

end Parse

end Quill
