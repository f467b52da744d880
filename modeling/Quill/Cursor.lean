import Quill.Text.Blank
import Quill.Text.Offset
import Quill.Token

/-!
# Cursors

A cursor is a place in a text: the characters on both sides of it and its byte offset.  Reading
moves characters from one side to the other, so nothing of the text is ever lost, and the blanks
around a token can be read off the two cursors at its ends.
-/

namespace Quill

/-- A place in a text. -/
structure Cursor where
  /-- The characters before the place, nearest first. -/
  before : List Char
  /-- The characters after the place, nearest first. -/
  after : List Char
  /-- The number of bytes before the place. -/
  offset : Nat
  offset_eq : offset = Text.byteLength before

namespace Cursor

/-- The start of a text. -/
def start (text : List Char) : Cursor where
  before := []
  after := text
  offset := 0
  offset_eq := rfl

instance : Inhabited Cursor := ⟨start []⟩

/-- The whole text around the cursor. -/
def text (cursor : Cursor) : List Char :=
  cursor.before.reverse ++ cursor.after

/-- Whether the whole text has been read. -/
def atEnd (cursor : Cursor) : Bool :=
  cursor.after.isEmpty

/-- Reads a number of characters, or all that are left. -/
def advance : Nat → Cursor → Cursor
  | 0, cursor => cursor
  | count + 1, ⟨before, after, offset, offset_eq⟩ =>
    match after with
    | [] => ⟨before, [], offset, offset_eq⟩
    | c :: rest =>
      advance count
        { before := c :: before
          after := rest
          offset := offset + c.utf8Size
          offset_eq := by simp [offset_eq, Nat.add_comm] }

/-- The place at a byte offset of the same text.  An offset inside a character stands for the start
of that character, and one beyond the text for its end. -/
def seek (offset : Nat) (cursor : Cursor) : Cursor :=
  let origin := start cursor.text
  origin.advance (Text.splitAtOffset offset origin.after).1.length

/-- Two cursors with the same characters around them are the same. -/
theorem ext_chars {c d : Cursor} (hbefore : c.before = d.before) (hafter : c.after = d.after) :
    c = d := by
  cases c with
  | mk before after offset offset_eq =>
    cases d with
    | mk before' after' offset' offset_eq' =>
      simp only at hbefore hafter
      subst hbefore hafter offset_eq offset_eq'
      rfl

/-- Reading removes characters from the front of what is left. -/
@[simp] theorem after_advance (count : Nat) (cursor : Cursor) :
    (cursor.advance count).after = cursor.after.drop count := by
  induction count generalizing cursor with
  | zero => rfl
  | succ count ih =>
    cases cursor with
    | mk before after offset offset_eq =>
      cases after with
      | nil => rfl
      | cons c rest => simp [advance, ih]

/-- Reading moves characters to what has been read. -/
@[simp] theorem before_advance (count : Nat) (cursor : Cursor) :
    (cursor.advance count).before = (cursor.after.take count).reverse ++ cursor.before := by
  induction count generalizing cursor with
  | zero => rfl
  | succ count ih =>
    cases cursor with
    | mk before after offset offset_eq =>
      cases after with
      | nil => rfl
      | cons c rest => simp [advance, ih]

/-- Reading keeps the text. -/
@[simp] theorem text_advance (count : Nat) (cursor : Cursor) :
    (cursor.advance count).text = cursor.text := by
  simp [text]

end Cursor

/-- What separates a token from its neighbour, read off the characters on that side, nearest
first. -/
def Trivia.ofChars : List Char → Trivia
  | [] => .adjacent
  | c :: cs =>
    if c == '\n' then
      .lineBreak
    else if Text.isBlank c then
      match Trivia.ofChars cs with
      | .lineBreak => .lineBreak
      | _ => .blank
    else
      .adjacent

/-- The token that covers the text between two cursors. -/
def Token.between (file : String) (kind : TokenKind) (value : String) (first last : Cursor) :
    Token where
  kind := kind
  value := value
  span := .within file first.offset last.offset
  leading := .ofChars first.before
  trailing := .ofChars last.after

end Quill
