import Quill.Token

/-!
# The grammar as tables

Which form of statement or expression a token opens, and how tightly a token binds what stands
before it, is given by tables over the kinds of tokens.
-/

namespace Quill

/-- How tightly an operator binds, weakest first.  All levels are left associative. -/
inductive BindingPower where
  | lowest
  | equality
  | relational
  | additive
  | multiplicative
  | suffix
  deriving DecidableEq, Inhabited

namespace BindingPower

/-- The place of a level in the order. -/
def rank : BindingPower → Nat
  | lowest => 0
  | equality => 1
  | relational => 2
  | additive => 3
  | multiplicative => 4
  | suffix => 5

instance : LE BindingPower := ⟨fun a b => a.rank ≤ b.rank⟩

instance (a b : BindingPower) : Decidable (a ≤ b) :=
  inferInstanceAs (Decidable (a.rank ≤ b.rank))

end BindingPower

/-- The forms of expression that a token can open. -/
inductive OperandForm where
  | atom
  | array
  | group
  deriving DecidableEq, Inhabited

/-- The forms in which a token can go on with an expression. -/
inductive TailForm where
  | binary
  | assignment
  | subscript
  | call
  deriving DecidableEq, Inhabited

/-- The forms of statement that a token can open. -/
inductive StmtForm where
  | function
  | ret
  | bind
  | branch
  | loop
  | range
  | block
  deriving DecidableEq, Inhabited

/-- The tables of a grammar. -/
structure Grammar where
  /-- The statement that a token opens; others are expression statements. -/
  stmt : TokenKind → Option StmtForm
  /-- The expression that a token opens. -/
  operand : TokenKind → Option OperandForm
  /-- How a token goes on with an expression, and how tightly it binds. -/
  tail : TokenKind → Option (BindingPower × TailForm)

namespace Grammar

/-- The grammar of the language. -/
def standard : Grammar where
  stmt
    | .fnWord => some .function
    | .returnWord => some .ret
    | .letWord => some .bind
    | .ifWord => some .branch
    | .whileWord => some .loop
    | .forWord => some .range
    | .openCurly => some .block
    | _ => none
  operand
    | .intLiteral | .floatLiteral | .stringLiteral | .trueWord | .falseWord | .identifier =>
      some .atom
    | .openBracket => some .array
    | .openParen => some .group
    | _ => none
  tail
    | .assign => some (.suffix, .assignment)
    | .openBracket => some (.suffix, .subscript)
    | .openParen => some (.suffix, .call)
    | .equal | .notEqual => some (.equality, .binary)
    | .less | .lessEqual | .greater | .greaterEqual => some (.relational, .binary)
    | .plus | .dash => some (.additive, .binary)
    | .star | .slash => some (.multiplicative, .binary)
    | _ => none

/-- The grammar without any form. -/
def empty : Grammar where
  stmt _ := none
  operand _ := none
  tail _ := none

end Grammar

end Quill
