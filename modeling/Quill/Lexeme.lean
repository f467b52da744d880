import Quill.Text.Blank
import Quill.Text.Letter
import Quill.Text.Numeral
import Quill.Token

/-!
# Lexemes

A lexeme is the run of characters that makes one token.  `lexeme?` reads the longest word, number
or string, or the longest mark, at the front of a text.
-/

namespace Quill

/-- A run of characters that makes one token. -/
structure Lexeme where
  kind : TokenKind
  /-- All characters of the run, the quotes of a string included. -/
  text : List Char
  deriving DecidableEq

namespace Lexeme

/-- The characters that can start a word. -/
def isWordStart (c : Char) : Bool :=
  Text.isLetter c || c == '_'

/-- The characters that can go on with a word. -/
def isWordPart (c : Char) : Bool :=
  Text.isLetter c || Text.isNumeral c || c == '_'

/-- The run of word characters at the front of a text, with the kind of word it is. -/
def word (cs : List Char) : Lexeme :=
  let text := cs.takeWhile isWordPart
  ⟨.ofWord (String.ofList text), text⟩

/-- The number at the front of a text: digits, and a point with further digits if there are
any. -/
def number (cs : List Char) : Lexeme :=
  let whole := cs.takeWhile Char.isDigit
  match cs.dropWhile Char.isDigit with
  | '.' :: rest =>
    match rest.takeWhile Char.isDigit with
    | [] => ⟨.intLiteral, whole⟩
    | decimals => ⟨.floatLiteral, whole ++ '.' :: decimals⟩
  | _ => ⟨.intLiteral, whole⟩

/-- The characters up to and including the next quote, or all of them if there is none. -/
def throughQuote : List Char → List Char
  | [] => []
  | c :: cs => if c == '"' then [c] else c :: throughQuote cs

/-- The mark at the front of a text; of two marks that fit, the longer one. -/
def mark? : List Char → Option Lexeme
  | '.' :: '.' :: _ => some ⟨.dotDot, ['.', '.']⟩
  | '=' :: '=' :: _ => some ⟨.equal, ['=', '=']⟩
  | '!' :: '=' :: _ => some ⟨.notEqual, ['!', '=']⟩
  | '<' :: '=' :: _ => some ⟨.lessEqual, ['<', '=']⟩
  | '>' :: '=' :: _ => some ⟨.greaterEqual, ['>', '=']⟩
  | '!' :: _ => some ⟨.bang, ['!']⟩
  | '=' :: _ => some ⟨.assign, ['=']⟩
  | '<' :: _ => some ⟨.less, ['<']⟩
  | '>' :: _ => some ⟨.greater, ['>']⟩
  | '[' :: _ => some ⟨.openBracket, ['[']⟩
  | ']' :: _ => some ⟨.closeBracket, [']']⟩
  | '\x7b' :: _ => some ⟨.openCurly, ['\x7b']⟩
  | '\x7d' :: _ => some ⟨.closeCurly, ['\x7d']⟩
  | '(' :: _ => some ⟨.openParen, ['(']⟩
  | ')' :: _ => some ⟨.closeParen, [')']⟩
  | ',' :: _ => some ⟨.comma, [',']⟩
  | ':' :: _ => some ⟨.colon, [':']⟩
  | '+' :: _ => some ⟨.plus, ['+']⟩
  | '-' :: _ => some ⟨.dash, ['-']⟩
  | '*' :: _ => some ⟨.star, ['*']⟩
  | '/' :: _ => some ⟨.slash, ['/']⟩
  | _ => none

/-- Whether the lexeme is a string without its closing quote. -/
def isUnterminated (lexeme : Lexeme) : Bool :=
  lexeme.kind == .stringLiteral && !lexeme.text.tail.contains '"'

/-- The text that the lexeme stands for: for a string, what is between its quotes. -/
def value (lexeme : Lexeme) : List Char :=
  match lexeme.kind with
  | .stringLiteral => lexeme.text.tail.takeWhile (· != '"')
  | _ => lexeme.text

end Lexeme

/-- The lexeme at the front of a text, if the text starts with one. -/
def lexeme? : List Char → Option Lexeme
  | [] => none
  | c :: cs =>
    if Lexeme.isWordStart c then
      some (Lexeme.word (c :: cs))
    else if c.isDigit then
      some (Lexeme.number (c :: cs))
    else if c == '"' then
      some ⟨.stringLiteral, c :: Lexeme.throughQuote cs⟩
    else
      Lexeme.mark? (c :: cs)

/-- The number of characters at the front of a text that only separate tokens: blanks, and
comments from two slashes to the end of their line.  The flag says whether a comment is open. -/
def triviaLength : Bool → List Char → Nat
  | _, [] => 0
  | true, c :: cs => triviaLength (c != '\n') cs + 1
  | false, c :: cs =>
    if Text.isBlank c then
      triviaLength false cs + 1
    else if c == '/' && cs.head? == some '/' then
      triviaLength true cs + 1
    else
      0

end Quill
