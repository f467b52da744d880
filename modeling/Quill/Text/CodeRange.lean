/-!
# Ranges of code points

A class of characters is given by a list of closed ranges of code points.
-/

namespace Quill.Text

/-- A closed range of code points: its first and its last one. -/
abbrev CodeRange := Nat × Nat

/-- Whether some range of the list holds the character. -/
def inRanges (ranges : List CodeRange) (c : Char) : Bool :=
  ranges.any fun range => range.1 ≤ c.toNat && c.toNat ≤ range.2

/-- Whether the character is one of the first 128, which hold the plain Latin letters, the digits
and the marks. -/
def isPlain (c : Char) : Bool :=
  c.toNat < 128

end Quill.Text
