import Quill.Scan

/-!
# The state of the parser

The parser looks at the token in front of it and the one after that.  It keeps the tokens still to
be read, counts those it has taken and records problems.  The problems of scanning are recorded
when their token comes into view, two places ahead of the token taken last, so that they stand
among the problems of parsing in the order of discovery.
-/

namespace Quill

/-- The state of the parser. -/
structure Parser where
  /-- The tokens still to be read, without the one for the end. -/
  ahead : List Scan
  /-- The token for the end. -/
  final : Scan
  /-- The number of tokens taken so far; at the end, the token for the end can be taken again and
  again. -/
  consumed : Nat
  /-- The problems found so far, in order. -/
  recorded : List Diagnostic
  /-- The number of the source, by which its functions are told from those of other sources. -/
  source : Nat
  deriving Inhabited

namespace Parser

/-- The problems that the first two tokens of a stream bring into view. -/
def openingProblems : List Scan → Scan → List Diagnostic
  | first :: second :: _, _ => first.problems ++ second.problems
  | [first], final => first.problems ++ final.problems
  | [], final => final.problems

/-- The start of a stream of tokens. -/
def start (stream : TokenStream) (source : Nat) : Parser where
  ahead := stream.scans
  final := stream.final
  consumed := 0
  recorded := openingProblems stream.scans stream.final
  source := source

/-- The start of a source text. -/
def ofText (file text : String) (source : Nat) : Parser :=
  start (.ofText file text) source

/-- The token in front of the parser. -/
def current (parser : Parser) : Token :=
  (parser.ahead.head?.getD parser.final).token

/-- The token after the one in front. -/
def peek (parser : Parser) : Token :=
  (parser.ahead.tail.head?.getD parser.final).token

/-- The number of tokens still to be read, without the one for the end. -/
def remaining (parser : Parser) : Nat :=
  parser.ahead.length

/-- The problems that come into view when a token is taken. -/
def nextProblems (parser : Parser) : List Diagnostic :=
  match parser.ahead with
  | _ :: _ :: third :: _ => third.problems
  | [_, _] => parser.final.problems
  | _ => []

/-- Takes a token. -/
def advance (parser : Parser) : Parser :=
  { parser with
    ahead := parser.ahead.tail
    consumed := parser.consumed + 1
    recorded := parser.recorded ++ parser.nextProblems }

/-- Records a problem. -/
def record (parser : Parser) (diagnostic : Diagnostic) : Parser :=
  { parser with recorded := parser.recorded ++ [diagnostic] }

/-- The complaint about the token in front. -/
def unexpected (parser : Parser) : Diagnostic :=
  .of (.unexpectedToken parser.current.description) parser.current.span

/-- Whether all tokens have been taken. -/
def atEnd (parser : Parser) : Bool :=
  parser.current.kind == .endOfInput

/-- Takes a number of tokens. -/
def skip : Nat → Parser → Parser
  | 0, parser => parser
  | count + 1, parser => skip count parser.advance

/-- The number of tokens before the next one that starts a line. -/
def restOfLine (parser : Parser) : Nat :=
  (parser.ahead.takeWhile fun scan => !scan.token.startsLine).length

/-- Gives up a statement that began when `before` tokens had been taken: drops tokens up to the
next one that starts a line.  A statement that failed on its first token loses that token in any
case, so that the parser always moves on. -/
def recover (before : Nat) (parser : Parser) : Parser :=
  let moved := if parser.consumed == before && !parser.atEnd then parser.advance else parser
  moved.skip moved.restOfLine

end Parser

/-- An action of the parser: it takes tokens and gives a result or a diagnostic. -/
abbrev Parse := EStateM Diagnostic Parser

namespace Parse

/-- The token in front. -/
def current : Parse Token := fun parser => .ok parser.current parser

/-- The kind of the token in front. -/
def currentKind : Parse TokenKind := fun parser => .ok parser.current.kind parser

/-- Takes a token of any kind. -/
def advance : Parse Token := fun parser => .ok parser.current parser.advance

/-- Complains about the token in front. -/
def unexpected {α : Type} : Parse α := fun parser => .error parser.unexpected parser

/-- Takes a token of the given kind, and complains about any other. -/
def expect (kind : TokenKind) : Parse Token := fun parser =>
  if parser.current.kind == kind then advance parser else unexpected parser

/-- Takes the token in front if it is of the given kind, and tells whether it did. -/
def accept (kind : TokenKind) : Parse Bool := fun parser =>
  if parser.current.kind == kind then .ok true parser.advance else .ok false parser

/-- Runs a bounded action with more steps than there are tokens left.  Every step of such an action
takes a token, so the bound is never used up. -/
def bounded {α : Type} (action : Nat → Parse α) : Parse α := fun parser =>
  action (parser.remaining + 1) parser

end Parse

end Quill
