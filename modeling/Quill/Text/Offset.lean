/-!
# Byte offsets

Positions in a source text are counted in bytes of its UTF-8 form, while the text itself is
handled as a list of characters.  `splitAtOffset` joins the two views: it cuts a text at the last
character boundary that a byte offset reaches.
-/

namespace Quill.Text

/-- The number of bytes that a run of characters takes in UTF-8. -/
def byteLength : List Char → Nat
  | [] => 0
  | c :: cs => c.utf8Size + byteLength cs

@[simp] theorem byteLength_nil : byteLength [] = 0 := rfl

@[simp] theorem byteLength_cons (c : Char) (cs : List Char) :
    byteLength (c :: cs) = c.utf8Size + byteLength cs := rfl

@[simp] theorem byteLength_append (front back : List Char) :
    byteLength (front ++ back) = byteLength front + byteLength back := by
  induction front with
  | nil => simp
  | cons c cs ih => simp [ih, Nat.add_assoc]

@[simp] theorem byteLength_reverse (cs : List Char) :
    byteLength cs.reverse = byteLength cs := by
  induction cs with
  | nil => rfl
  | cons c cs ih => simp [ih, Nat.add_comm]

/-- Cuts a text at the last character boundary at or before `offset`. -/
def splitAtOffset : Nat → List Char → List Char × List Char
  | _, [] => ([], [])
  | offset, c :: cs =>
    if c.utf8Size ≤ offset then
      let parts := splitAtOffset (offset - c.utf8Size) cs
      (c :: parts.1, parts.2)
    else
      ([], c :: cs)

/-- A cut loses nothing. -/
theorem splitAtOffset_append (offset : Nat) (cs : List Char) :
    (splitAtOffset offset cs).1 ++ (splitAtOffset offset cs).2 = cs := by
  induction cs generalizing offset with
  | nil => rfl
  | cons c cs ih =>
    simp only [splitAtOffset]
    split
    · simp [ih]
    · rfl

/-- The part before the cut never reaches beyond the offset. -/
theorem byteLength_splitAtOffset_le (offset : Nat) (cs : List Char) :
    byteLength (splitAtOffset offset cs).1 ≤ offset := by
  induction cs generalizing offset with
  | nil => simp [splitAtOffset]
  | cons c cs ih =>
    simp only [splitAtOffset]
    split
    · next fits =>
      have := ih (offset - c.utf8Size)
      simp only [byteLength_cons]
      omega
    · simp

/-- Whether the offset lies between two characters, or at one end of the text. -/
def isBoundary (offset : Nat) (cs : List Char) : Bool :=
  byteLength (splitAtOffset offset cs).1 == offset

/-- The characters between two offsets, if both are boundaries in the right order. -/
def slice? (start stop : Nat) (cs : List Char) : Option (List Char) :=
  if start ≤ stop && isBoundary start cs && isBoundary stop cs then
    some (splitAtOffset (stop - start) (splitAtOffset start cs).2).1
  else
    none

end Quill.Text
