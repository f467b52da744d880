import Quill.Decimal.Literal
import Quill.Expr
import Quill.Parser.Grammar
import Quill.Proofs.Layout

/-!
# Printed expressions

A tree is an expression as it is thought of, without spans.  It is printed as a sequence of lexemes,
with parentheses only where a reader needs them: around an assignment in front of something or
behind an operator, and around an operator that binds too weakly for its place.  Each place says
which operators it bears without parentheses.
-/

namespace Quill

namespace Operator

/-- The token by which the operator is written. -/
def tokenKind : Operator → TokenKind
  | notEqual => .notEqual
  | equal => .equal
  | less => .less
  | lessEqual => .lessEqual
  | greater => .greater
  | greaterEqual => .greaterEqual
  | add => .plus
  | subtract => .dash
  | divide => .slash
  | multiply => .star

/-- How tightly the operator binds its operands. -/
def power : Operator → BindingPower
  | notEqual | equal => .equality
  | less | lessEqual | greater | greaterEqual => .relational
  | add | subtract => .additive
  | divide | multiply => .multiplicative

/-- The sign of the operator. -/
def lexeme (operator : Operator) : Lexeme :=
  ⟨operator.tokenKind, operator.symbol.toList⟩

end Operator

namespace Lexeme

/-- An opening parenthesis. -/
def openParen : Lexeme := ⟨.openParen, ['(']⟩

/-- A closing parenthesis. -/
def closeParen : Lexeme := ⟨.closeParen, [')']⟩

/-- An opening bracket. -/
def openBracket : Lexeme := ⟨.openBracket, ['[']⟩

/-- A closing bracket. -/
def closeBracket : Lexeme := ⟨.closeBracket, [']']⟩

/-- A comma. -/
def comma : Lexeme := ⟨.comma, [',']⟩

/-- The sign of an assignment. -/
def assign : Lexeme := ⟨.assign, ['=']⟩

end Lexeme

/-- A word that is not reserved. -/
structure Identifier where
  text : String
  starts : ∃ c ∈ text.toList.head?, Lexeme.isWordStart c
  parts : ∀ c ∈ text.toList, Lexeme.isWordPart c
  free : TokenKind.ofWord text = .identifier

/-- Digits with a point between them. -/
structure PointNumber where
  whole : List Char
  decimals : List Char
  wholeSome : whole ≠ []
  decimalsSome : decimals ≠ []
  wholeDigits : ∀ c ∈ whole, c.isDigit
  decimalsDigits : ∀ c ∈ decimals, c.isDigit

/-- The lexeme of a word. -/
def Identifier.lexeme (ident : Identifier) : Lexeme :=
  ⟨.identifier, ident.text.toList⟩

/-- The characters of a number with a point. -/
def PointNumber.chars (number : PointNumber) : List Char :=
  number.whole ++ '.' :: number.decimals

/-- An expression of one lexeme. -/
inductive Atom where
  | int (value : Int64) (nonneg : 0 ≤ value)
  | float (number : PointNumber)
  | string (text : String) (unquoted : '"' ∉ text.toList)
  | bool (value : Bool)
  | name (ident : Identifier)

namespace Atom

/-- How the atom is printed. -/
def lexeme : Atom → Lexeme
  | int value _ => ⟨.intLiteral, Nat.toDigits 10 value.toInt.toNat⟩
  | float number => ⟨.floatLiteral, number.chars⟩
  | string text _ => ⟨.stringLiteral, '"' :: (text.toList ++ ['"'])⟩
  | bool true => ⟨.trueWord, "true".toList⟩
  | bool false => ⟨.falseWord, "false".toList⟩
  | name ident => ident.lexeme

/-- The expression that the atom stands for. -/
def expr : Atom → Expr
  | int value _ => .int value default
  | float number => .float (Decimal.floatLiteral (String.ofList number.chars)) default
  | string text _ => .string text default
  | bool value => .bool value default
  | name ident => .name ident.text default

end Atom

/-- An expression without spans. -/
inductive Tree where
  | leaf (atom : Atom)
  | array (elements : List Tree)
  | call (callee : Identifier) (arguments : List Tree)
  | subscript (base index : Tree)
  | binary (operator : Operator) (left right : Tree)
  | assign (target value : Tree)

namespace Tree

/-- Whether the tree needs parentheses in a place that bears only some operators. -/
def needsParens (bears : Operator → Bool) : Tree → Bool
  | binary operator _ _ => !bears operator
  | assign _ _ => true
  | _ => false

/-- What the left side of an operator bears: operators that bind at least as tightly. -/
def onLeft (operator inner : Operator) : Bool :=
  operator.power ≤ inner.power

/-- What the right side of an operator bears: operators that bind more tightly. -/
def onRight (operator inner : Operator) : Bool :=
  !decide (inner.power ≤ operator.power)

/-- What stands in front of a subscript or of an assignment bears no operator. -/
def inFront (_ : Operator) : Bool :=
  false

/-- Lexemes, in parentheses if these are needed. -/
def enclose (needed : Bool) (lexemes : List Lexeme) : List Lexeme :=
  if needed then .openParen :: (lexemes ++ [.closeParen]) else lexemes

mutual

/-- How the tree is printed. -/
def lexemes : Tree → List Lexeme
  | leaf atom => [atom.lexeme]
  | array elements => .openBracket :: (lexemesOfAll elements ++ [.closeBracket])
  | call callee arguments =>
    callee.lexeme :: .openParen :: (lexemesOfAll arguments ++ [.closeParen])
  | subscript base index =>
    enclose (base.needsParens inFront) base.lexemes ++
      .openBracket :: (index.lexemes ++ [.closeBracket])
  | binary operator left right =>
    enclose (left.needsParens (onLeft operator)) left.lexemes ++
      operator.lexeme :: enclose (right.needsParens (onRight operator)) right.lexemes
  | assign target value =>
    enclose (target.needsParens inFront) target.lexemes ++ .assign :: value.lexemes

/-- How trees are printed, with commas between them. -/
def lexemesOfAll : List Tree → List Lexeme
  | [] => []
  | [tree] => tree.lexemes
  | tree :: next :: rest => tree.lexemes ++ .comma :: lexemesOfAll (next :: rest)

end

mutual

/-- The expression that the tree stands for. -/
def expr : Tree → Expr
  | leaf atom => atom.expr
  | array elements => .array (exprOfAll elements) default
  | call callee arguments => .call callee.text default (exprOfAll arguments) default
  | subscript base index => .subscript base.expr index.expr default
  | binary operator left right => .binary operator left.expr right.expr default
  | assign target value => .assign target.expr value.expr default

/-- The expressions that trees stand for. -/
def exprOfAll : List Tree → List Expr
  | [] => []
  | tree :: rest => tree.expr :: exprOfAll rest

end

/-- The text of the tree, with the blanks of a layout between its lexemes. -/
def print (tree : Tree) (layout : Layout) : String :=
  String.ofList (layout.write tree.lexemes)

-- on the right of a difference, another one needs parentheses, and a product does not
example : (binary .subtract (leaf (.int 1 (by decide)))
      (binary .subtract (leaf (.int 2 (by decide)))
        (binary .multiply (leaf (.int 3 (by decide))) (leaf (.string "=" (by decide)))))).print
    (fun _ => ⟨[], by simp⟩) = "1-(2-3*\"=\")" := by
  rfl

end Tree

namespace Expr

mutual

/-- The expression without its spans. -/
def unspanned : Expr → Expr
  | int value _ => int value default
  | float value _ => float value default
  | string value _ => string value default
  | bool value _ => bool value default
  | array elements _ => array (unspannedAll elements) default
  | name ident _ => name ident default
  | call callee _ arguments _ => call callee default (unspannedAll arguments) default
  | subscript base index _ => subscript base.unspanned index.unspanned default
  | binary operator left right _ => binary operator left.unspanned right.unspanned default
  | assign target value _ => assign target.unspanned value.unspanned default

/-- The expressions without their spans. -/
def unspannedAll : List Expr → List Expr
  | [] => []
  | expr :: rest => expr.unspanned :: unspannedAll rest

end

end Expr

end Quill
