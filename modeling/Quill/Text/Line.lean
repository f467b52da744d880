import Quill.Text.Offset

/-!
# Lines of a text

A byte position in a text belongs to one line: the stretch between the newlines around it.
`lineAt` finds that line, its number and the column of the position in it.
-/

namespace Quill.Text

/-- One line of a text and a place in it. -/
structure LinePosition where
  /-- The number of the line, counted from one. -/
  number : Nat
  /-- The text of the line, without its newline and without carriage returns before that. -/
  text : String
  /-- The number of characters before the place. -/
  column : Nat
  deriving DecidableEq

/-- The characters up to the first newline. -/
def untilNewline (cs : List Char) : List Char :=
  cs.takeWhile (· != '\n')

/-- A line without the carriage returns at its end. -/
def dropTrailingReturns (line : List Char) : List Char :=
  (line.reverse.dropWhile (· == '\r')).reverse

/-- The line that holds a byte position.  A position beyond the text stands for its end, and one
inside a character for the start of that character. -/
def lineAt (content : String) (position : Nat) : LinePosition :=
  let parts := splitAtOffset position content.toList
  let opening := (untilNewline parts.1.reverse).reverse
  { number := parts.1.count '\n' + 1
    text := String.ofList (dropTrailingReturns (opening ++ untilNewline parts.2))
    column := opening.length }

end Quill.Text
