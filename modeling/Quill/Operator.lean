import Quill.Token

/-!
# Binary operators
-/

namespace Quill

/-- The operators that stand between two operands. -/
inductive Operator where
  | notEqual
  | equal
  | less
  | lessEqual
  | greater
  | greaterEqual
  | add
  | subtract
  | divide
  | multiply
  deriving DecidableEq, Inhabited

namespace Operator

/-- The sign by which the operator is written. -/
def symbol : Operator → String
  | notEqual => "!="
  | equal => "=="
  | less => "<"
  | lessEqual => "<="
  | greater => ">"
  | greaterEqual => ">="
  | add => "+"
  | subtract => "-"
  | divide => "/"
  | multiply => "*"

/-- Every operator, in the order of declaration. -/
def all : List Operator :=
  [notEqual, equal, less, lessEqual, greater, greaterEqual, add, subtract, divide, multiply]

/-- The operator written by a sign. -/
def ofSymbol? (text : String) : Option Operator :=
  all.find? fun operator => operator.symbol == text

/-- The operator that a token denotes between two operands. -/
def ofTokenKind? : TokenKind → Option Operator
  | .notEqual => some notEqual
  | .equal => some equal
  | .less => some less
  | .lessEqual => some lessEqual
  | .greater => some greater
  | .greaterEqual => some greaterEqual
  | .plus => some add
  | .dash => some subtract
  | .slash => some divide
  | .star => some multiply
  | _ => none

/-- Whether the operator compares for equality; such operators take operands of any type. -/
def isEquality : Operator → Bool
  | equal | notEqual => true
  | _ => false

/-- Whether the operator compares by order. -/
def isOrdering : Operator → Bool
  | less | lessEqual | greater | greaterEqual => true
  | _ => false

end Operator

end Quill
