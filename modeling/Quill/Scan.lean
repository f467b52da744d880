import Quill.Cursor
import Quill.Diagnostic
import Quill.Lexeme

/-!
# Scanning a text

Scanning turns a text into its tokens.  Characters that start no token are reported and skipped, so
every text has a stream of tokens, closed by one token for the end of the text.  Each token is kept
together with the problems found on the way to it, because a reader that asks for tokens one at a
time learns of those problems only then.
-/

namespace Quill

/-- A token and the problems found while looking for it. -/
structure Scan where
  token : Token
  problems : List Diagnostic
  deriving DecidableEq, Inhabited

/-- The place after the blanks and comments in front of a cursor. -/
def Cursor.skipTrivia (cursor : Cursor) : Cursor :=
  cursor.advance (triviaLength false cursor.after)

namespace Scan

/-- The token for the end of the text. -/
def atEnd (file : String) (cursor : Cursor) : Scan :=
  ⟨.between file .endOfInput "EOF" cursor cursor, []⟩

/-- The token of a lexeme that lies between two cursors.  The span of a string leaves out its
quotes. -/
def ofLexeme (file : String) (lexeme : Lexeme) (first last : Cursor) : Scan :=
  let value := String.ofList lexeme.value
  let token := Token.between file lexeme.kind value first last
  if lexeme.kind == .stringLiteral then
    let inner := first.offset + 1
    let span := Span.within file inner (inner + Text.byteLength lexeme.value)
    let problems :=
      if lexeme.isUnterminated then [.of .unterminatedString token.span] else []
    ⟨{ token with span := span }, problems⟩
  else
    ⟨token, []⟩

/-- The report of a character that starts no token. -/
def strayCharacter (file : String) (c : Char) (first last : Cursor) : Diagnostic :=
  let span := Span.within file first.offset last.offset
  (Diagnostic.of (.unexpectedToken (String.singleton c)) span).inPhase .lexing

/-- The next token after a cursor, and the place behind it.  The first argument bounds the number
of stray characters on the way; a bound above the number of characters left is never used up. -/
def next (file : String) : Nat → Cursor → Scan × Cursor
  | 0, cursor => (atEnd file cursor, cursor)
  | bound + 1, cursor =>
    let first := cursor.skipTrivia
    match first.after with
    | [] => (atEnd file first, first)
    | c :: rest =>
      match lexeme? (c :: rest) with
      | some lexeme =>
        let last := first.advance lexeme.text.length
        (ofLexeme file lexeme first last, last)
      | none =>
        let last := first.advance 1
        let found := next file bound last
        ({ found.1 with problems := strayCharacter file c first last :: found.1.problems },
          found.2)

end Scan

/-- The tokens of a text: those of its lexemes, and the one for its end. -/
structure TokenStream where
  scans : List Scan
  final : Scan
  deriving DecidableEq, Inhabited

namespace TokenStream

/-- The tokens after a cursor.  The first argument bounds their number. -/
def startingAt (file : String) : Nat → Cursor → TokenStream
  | 0, cursor => ⟨[], Scan.atEnd file cursor⟩
  | bound + 1, cursor =>
    let found := Scan.next file (bound + 1) cursor
    if found.1.token.kind == .endOfInput then
      ⟨[], found.1⟩
    else
      let others := startingAt file bound found.2
      ⟨found.1 :: others.scans, others.final⟩

/-- The tokens of a whole text. -/
def ofText (file : String) (text : String) : TokenStream :=
  let chars := text.toList
  startingAt file (chars.length + 1) (.start chars)

/-- All tokens in order, the one for the end included. -/
def tokens (stream : TokenStream) : List Token :=
  stream.scans.map (·.token) ++ [stream.final.token]

/-- All problems found while scanning, in order. -/
def diagnostics (stream : TokenStream) : List Diagnostic :=
  stream.scans.flatMap (·.problems) ++ stream.final.problems

/-- The tokens written out again, with one space between neighbours. -/
def render (stream : TokenStream) : String :=
  " ".intercalate (stream.tokens.map (·.sourceText))

end TokenStream

/-- The next token after a cursor, and the place behind it. -/
def Cursor.nextToken (file : String) (cursor : Cursor) : Scan × Cursor :=
  Scan.next file (cursor.after.length + 1) cursor

end Quill
