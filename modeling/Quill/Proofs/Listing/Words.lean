import Quill.Proofs.Printing.Tree
import Quill.Scan
import Quill.Stmt

/-!
# Trees as lists of words

A tree can be listed in the order in which its source was written: its keywords, names, literals and
operators.  What the list leaves out is punctuation, the brackets, commas and colons that only show
how the words belong together.  The same words can be taken off the tokens of a text.

A function without a return type has the type `void` in its tree.  So this one name may be in the
tree and not in the text, and the two lists are compared without it.
-/

namespace Quill

/-- What a token says.  Numbers are told by their value, however they are written. -/
inductive Word where
  /-- A keyword or an operator. -/
  | sign (kind : TokenKind)
  /-- The name of a variable, a function or a type. -/
  | name (text : String)
  | int (value : Int)
  | float (value : Float)
  | string (text : String)

namespace Word

/-- The word that a kind of token says by its text; punctuation and the end say nothing. -/
def of? (kind : TokenKind) (text : String) : Option Word :=
  match kind with
  | .endOfInput | .openParen | .closeParen | .openCurly | .closeCurly | .openBracket
  | .closeBracket | .comma | .colon => none
  | .identifier => some (name text)
  | .intLiteral => some (int (Decimal.digitsValue text.toList))
  | .floatLiteral => some (float (Decimal.floatLiteral text))
  | .stringLiteral => some (string text)
  | other => some (sign other)

/-- Whether the word is the name `void`. -/
def isVoid : Word → Bool
  | name text => text == "void"
  | _ => false

/-- The words without the name `void`. -/
def spoken (words : List Word) : List Word :=
  words.filter (!·.isVoid)

/-- The word alone, unless it is the name `void`. -/
def told (word : Word) : List Word :=
  spoken [word]

@[simp] theorem told_sign (kind : TokenKind) : (sign kind).told = [sign kind] := rfl

@[simp] theorem told_void : (name "void").told = [] := rfl

@[simp] theorem spoken_nil : spoken [] = [] := rfl

@[simp] theorem spoken_append (words others : List Word) :
    spoken (words ++ others) = spoken words ++ spoken others :=
  List.filter_append ..

@[simp] theorem spoken_cons (word : Word) (others : List Word) :
    spoken (word :: others) = word.told ++ spoken others :=
  spoken_append [word] others

@[simp] theorem of?_tokenKind (operator : Operator) (text : String) :
    of? operator.tokenKind text = some (sign operator.tokenKind) := by
  cases operator <;> rfl

end Word

/-- The word that a token says. -/
def Token.word? (token : Token) : Option Word :=
  Word.of? token.kind token.value

/-- The words of a text. -/
def TokenStream.words (stream : TokenStream) : List Word :=
  stream.tokens.filterMap Token.word?

/-- The words of an annotation.  Types of functions are never written. -/
def Ty.words : Ty → List Word
  | int => [.name "int"]
  | float => [.name "float"]
  | string => [.name "string"]
  | bool => [.name "bool"]
  | void => [.name "void"]
  | array element => element.words
  | function _ _ => []
  | variadic _ => []

/-- The words of a parameter. -/
def Parameter.words (parameter : Parameter) : List Word :=
  .name parameter.name :: parameter.type.words

namespace Expr

mutual

/-- The words of an expression. -/
def words : Expr → List Word
  | int value _ => [.int value.toInt]
  | float value _ => [.float value]
  | string value _ => [.string value]
  | bool true _ => [.sign .trueWord]
  | bool false _ => [.sign .falseWord]
  | array elements _ => wordsOfAll elements
  | name ident _ => [.name ident]
  | call callee _ arguments _ => .name callee :: wordsOfAll arguments
  | subscript base index _ => base.words ++ index.words
  | binary operator left right _ => left.words ++ .sign operator.tokenKind :: right.words
  | assign target value _ => target.words ++ .sign .assign :: value.words

/-- The words of expressions. -/
def wordsOfAll : List Expr → List Word
  | [] => []
  | expr :: exprs => expr.words ++ wordsOfAll exprs

end

end Expr

namespace Stmt

mutual

/-- The words of a statement. -/
def words : Stmt → List Word
  | function ⟨_, name, parameters, returnType, body, _⟩ =>
    .sign .fnWord :: .name name ::
      (parameters.flatMap Parameter.words ++ returnType.words ++ wordsOfBlock body)
  | ret value _ => .sign .returnWord :: value.words
  | bind name value _ => .sign .letWord :: .name name :: .sign .assign :: value.words
  | expr value => value.words
  | branch ⟨condition, body, _⟩ others otherwise =>
    .sign .ifWord :: (condition.words ++ wordsOfBlock body) ++ wordsOfArms others ++
      wordsOfLast otherwise
  | loop condition body _ => .sign .whileWord :: (condition.words ++ wordsOfBlock body)
  | range counter lower upper body _ =>
    .sign .forWord :: .name counter :: .sign .inWord ::
      (lower.words ++ .sign .dotDot :: (upper.words ++ wordsOfBlock body))
  | block inner => wordsOfBlock inner

/-- The words of the arms behind the first one. -/
def wordsOfArms : List (Arm Stmt) → List Word
  | [] => []
  | ⟨condition, body, _⟩ :: arms =>
    .sign .elseWord :: .sign .ifWord :: (condition.words ++ wordsOfBlock body) ++ wordsOfArms arms

/-- The words of the last block of a branch. -/
def wordsOfLast : Option (Block Stmt) → List Word
  | some inner => .sign .elseWord :: wordsOfBlock inner
  | none => []

/-- The words of a block. -/
def wordsOfBlock : Block Stmt → List Word
  | ⟨body, _⟩ => wordsOfAll body

/-- The words of statements. -/
def wordsOfAll : List Stmt → List Word
  | [] => []
  | stmt :: stmts => stmt.words ++ wordsOfAll stmts

end

theorem wordsOfAll_append (stmts others : List Stmt) :
    wordsOfAll (stmts ++ others) = wordsOfAll stmts ++ wordsOfAll others := by
  induction stmts with
  | nil => rfl
  | cons stmt stmts ih => simp [wordsOfAll, ih]

end Stmt

end Quill
