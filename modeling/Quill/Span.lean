/-!
# Positions and spans

A span is a stretch of program text, given by two positions.  Each position is a byte offset into
a named file, so that a diagnostic knows which text to show.
-/

namespace Quill

/-- A byte offset into a named file. -/
structure Position where
  offset : Nat
  file : String
  deriving DecidableEq, Inhabited

/-- The stretch of text from `start` up to, and not including, `stop`. -/
structure Span where
  start : Position
  stop : Position
  deriving DecidableEq, Inhabited

namespace Span

/-- The stretch between two offsets of one file. -/
def within (file : String) (start stop : Nat) : Span :=
  ⟨⟨start, file⟩, ⟨stop, file⟩⟩

/-- The stretch from the start of the first span to the end of the last. -/
def spanning (first last : Span) : Span :=
  ⟨first.start, last.stop⟩

/-- The file in which the span starts. -/
def file (span : Span) : String :=
  span.start.file

/-- The number of bytes covered; a span that ends before it starts covers none. -/
def length (span : Span) : Nat :=
  span.stop.offset - span.start.offset

/-- Whether the span covers nothing. -/
def isEmpty (span : Span) : Bool :=
  span.length == 0

end Span

end Quill
