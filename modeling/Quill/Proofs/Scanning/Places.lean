import Quill.Scan

/-!
# Places in a text

Spans are given in bytes, and scanning is done with cursors.  Here the two are brought together: the
offset of a cursor is a boundary of its text, and what lies between a cursor and a later one is the
slice between their offsets.
-/

namespace Quill

namespace Text

/-- Every character takes up room. -/
theorem byteLength_pos {cs : List Char} (h : cs ≠ []) : 0 < byteLength cs := by
  cases cs with
  | nil => exact absurd rfl h
  | cons c cs =>
      have hsize := c.utf8Size_pos
      rw [byteLength_cons]
      omega

/-- A cut at the length of a front part separates that part from the rest. -/
theorem splitAtOffset_front (front back : List Char) :
    splitAtOffset (byteLength front) (front ++ back) = (front, back) := by
  induction front with
  | nil =>
      cases back with
      | nil => rfl
      | cons c cs =>
          have hsize := c.utf8Size_pos
          rw [List.nil_append, byteLength_nil, splitAtOffset, if_neg (by omega)]
  | cons c cs ih =>
      rw [List.cons_append, byteLength_cons, splitAtOffset, if_pos (by omega),
        Nat.add_sub_cancel_left, ih]

/-- Between two parts of a text lies a boundary. -/
theorem isBoundary_front (front back : List Char) :
    isBoundary (byteLength front) (front ++ back) = true := by
  rw [isBoundary, splitAtOffset_front, beq_self_eq_true]

/-- The slice between two boundaries is the part of the text between them. -/
theorem slice?_between (front middle back : List Char) :
    slice? (byteLength front) (byteLength front + byteLength middle) (front ++ (middle ++ back))
      = some middle := by
  have hstop : isBoundary (byteLength front + byteLength middle) (front ++ (middle ++ back))
      = true := by
    rw [← byteLength_append, ← List.append_assoc]
    exact isBoundary_front _ _
  rw [slice?, isBoundary_front, hstop, splitAtOffset_front, Nat.add_sub_cancel_left,
    splitAtOffset_front, if_pos (by simp)]

end Text

namespace Cursor

variable (cursor : Cursor) (count : Nat)

/-- The offset of a cursor grows by what is read. -/
theorem offset_advance :
    (cursor.advance count).offset = cursor.offset + Text.byteLength (cursor.after.take count) := by
  rw [offset_eq, before_advance, offset_eq, Text.byteLength_append, Text.byteLength_reverse,
    Nat.add_comm]

/-- Reading twice is reading once. -/
theorem advance_advance (more : Nat) :
    (cursor.advance count).advance more = cursor.advance (count + more) := by
  apply ext_chars
  · rw [before_advance, before_advance, before_advance, after_advance, List.take_add,
      List.reverse_append, List.append_assoc]
  · rw [after_advance, after_advance, after_advance, List.drop_drop]

/-- Cutting a text at the offset of a cursor gives the characters on its two sides. -/
theorem splitAtOffset_offset :
    Text.splitAtOffset cursor.offset cursor.text = (cursor.before.reverse, cursor.after) := by
  rw [text, cursor.offset_eq, ← Text.byteLength_reverse cursor.before, Text.splitAtOffset_front]

/-- A cursor stands at a boundary of its text. -/
theorem isBoundary_offset : Text.isBoundary cursor.offset cursor.text = true := by
  rw [text, cursor.offset_eq, ← Text.byteLength_reverse cursor.before, Text.isBoundary_front]

/-- What is read lies between the two cursors. -/
theorem slice?_advance :
    Text.slice? cursor.offset (cursor.advance count).offset cursor.text
      = some (cursor.after.take count) := by
  have htext : cursor.text =
      cursor.before.reverse ++ (cursor.after.take count ++ cursor.after.drop count) := by
    rw [text, List.take_append_drop]
  rw [offset_advance, htext, cursor.offset_eq, ← Text.byteLength_reverse cursor.before,
    Text.slice?_between]

/-- The characters behind the place to which a cursor is moved. -/
theorem splitAtOffset_advance :
    (Text.splitAtOffset (cursor.advance count).offset cursor.text).2 = cursor.after.drop count := by
  have hcut := splitAtOffset_offset (cursor.advance count)
  rw [text_advance] at hcut
  rw [hcut, after_advance]

/-- No cursor stands behind the end of its text. -/
theorem offset_le_byteLength : cursor.offset ≤ Text.byteLength cursor.text := by
  rw [text, Text.byteLength_append, Text.byteLength_reverse, ← cursor.offset_eq]
  omega

end Cursor

end Quill
