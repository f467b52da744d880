import Quill.Text.CodeRange

/-!
# Blanks

The characters with the Unicode property White_Space.  The zero-width characters and the
Mongolian vowel separator do not have it.
-/

namespace Quill.Text

/-- The blanks, as ranges of code points in increasing order. -/
def blankRanges : List CodeRange :=
  [(0x9, 0xD), (0x20, 0x20), (0x85, 0x85), (0xA0, 0xA0), (0x1680, 0x1680), (0x2000, 0x200A),
    (0x2028, 0x2029), (0x202F, 0x202F), (0x205F, 0x205F), (0x3000, 0x3000)]

/-- Recognises the characters that only separate others: spaces, tabs and line breaks. -/
def isBlank (c : Char) : Bool :=
  inRanges blankRanges c

end Quill.Text
