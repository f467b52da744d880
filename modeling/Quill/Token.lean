import Quill.Span

/-!
# Tokens

A token is one word or mark of the language, with the text it stands for, the stretch of source
it covers and what separates it from its neighbours.  The separation on the left decides where a
new line of the program starts.
-/

namespace Quill

/-- The words and marks of the language. -/
inductive TokenKind where
  | endOfInput
  | intLiteral
  | floatLiteral
  | stringLiteral
  | identifier
  | trueWord
  | falseWord
  | openParen
  | closeParen
  | openCurly
  | closeCurly
  | openBracket
  | closeBracket
  | comma
  | colon
  | dotDot
  | plus
  | dash
  | star
  | slash
  | assign
  | equal
  | bang
  | notEqual
  | less
  | lessEqual
  | greater
  | greaterEqual
  | fnWord
  | letWord
  | returnWord
  | ifWord
  | elseWord
  | whileWord
  | forWord
  | inWord
  deriving DecidableEq, Inhabited

namespace TokenKind

/-- The name under which a kind is shown. -/
def name : TokenKind → String
  | endOfInput => "EOF"
  | intLiteral => "Int"
  | floatLiteral => "Float"
  | stringLiteral => "String"
  | identifier => "Identifier"
  | trueWord => "True"
  | falseWord => "False"
  | openParen => "OpenParen"
  | closeParen => "CloseParen"
  | openCurly => "OpenCurly"
  | closeCurly => "CloseCurly"
  | openBracket => "OpenBracket"
  | closeBracket => "CloseBracket"
  | comma => "Comma"
  | colon => "Colon"
  | dotDot => "DotDot"
  | plus => "Plus"
  | dash => "Dash"
  | star => "Star"
  | slash => "Slash"
  | assign => "Assignment"
  | equal => "Equals"
  | bang => "Not"
  | notEqual => "NotEquals"
  | less => "Less"
  | lessEqual => "LessEquals"
  | greater => "Greater"
  | greaterEqual => "GreaterEquals"
  | fnWord => "Fn"
  | letWord => "Let"
  | returnWord => "Return"
  | ifWord => "If"
  | elseWord => "Else"
  | whileWord => "While"
  | forWord => "For"
  | inWord => "In"

/-- Every kind, in the order of declaration. -/
def all : List TokenKind :=
  [endOfInput, intLiteral, floatLiteral, stringLiteral, identifier, trueWord, falseWord, openParen,
    closeParen, openCurly, closeCurly, openBracket, closeBracket, comma, colon, dotDot, plus, dash,
    star, slash, assign, equal, bang, notEqual, less, lessEqual, greater, greaterEqual, fnWord,
    letWord, returnWord, ifWord, elseWord, whileWord, forWord, inWord]

/-- The kind shown under a name. -/
def ofName? (text : String) : Option TokenKind :=
  all.find? fun kind => kind.name == text

/-- The kind of a word: one of the reserved words, or an identifier. -/
def ofWord (word : String) : TokenKind :=
  match word with
  | "fn" => fnWord
  | "let" => letWord
  | "return" => returnWord
  | "if" => ifWord
  | "else" => elseWord
  | "while" => whileWord
  | "for" => forWord
  | "in" => inWord
  | "true" => trueWord
  | "false" => falseWord
  | _ => identifier

end TokenKind

/-- What separates a token from its neighbour on one side. -/
inductive Trivia where
  /-- Nothing, or something other than blanks. -/
  | adjacent
  /-- Blanks on one line. -/
  | blank
  /-- Blanks with at least one newline among them. -/
  | lineBreak
  deriving DecidableEq, Inhabited

/-- One word or mark of a source text. -/
structure Token where
  kind : TokenKind
  /-- The text that the token stands for; for a string literal, the text between its quotes. -/
  value : String
  span : Span
  leading : Trivia
  trailing : Trivia
  deriving DecidableEq, Inhabited

namespace Token

/-- Whether a newline stands between the token and what comes before it. -/
def startsLine (token : Token) : Bool :=
  token.leading == .lineBreak

/-- The text by which diagnostics name the token. -/
def description (token : Token) : String :=
  match token.kind with
  | .endOfInput => "<eof>"
  | _ => token.value

/-- The token as it is written in a program. -/
def sourceText (token : Token) : String :=
  match token.kind with
  | .stringLiteral => "\"" ++ token.value ++ "\""
  | .endOfInput => ""
  | _ => token.value

/-- The token shown with its kind. -/
def display (token : Token) : String :=
  "Token \x7b\nkind: " ++ token.kind.name ++ ",\nvalue: " ++ token.value ++ "\x7d"

end Token

end Quill
