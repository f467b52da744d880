import Mathlib.Data.List.DropRight
import Mathlib.Data.Prod.Lex
import Mathlib.Order.Bounds.Defs
import Quill.Proofs.Scanning.Places
import Quill.Text.Line

/-!
# Lines and columns

The lines of a text are the pieces between its newlines.  A byte position stands for the last
boundary between characters that it reaches, and `lineAt` tells that place by its line and by the
number of characters in front of it there: just what is found by splitting the text and counting.
So of two places the later one has the later line or, in the same line, the later column.
-/

namespace Quill.Text

/-- The lines of a text. -/
def lines (content : String) : List (List Char) :=
  content.toList.splitOn '\n'

/-- The number of bytes that lines take up together with the newlines behind them. -/
def bytesThrough (earlier : List (List Char)) : Nat :=
  byteLength (earlier.flatMap (· ++ ['\n']))

/-- The place lies between two characters of the text, or at one of its ends. -/
def Between (content : String) (place : Nat) : Prop :=
  String.Pos.Raw.IsValid content ⟨place⟩

/-- What is told of a place is right: in the line with that number, of which all is shown but the
carriage returns at its end, the place comes behind that many characters. -/
structure LinePosition.Tells (content : String) (place : Nat) (found : LinePosition) : Prop where
  split : ∃ earlier opening closing later,
    lines content = earlier ++ (opening ++ closing) :: later ∧
    place = bytesThrough earlier + byteLength opening ∧
    found = ⟨earlier.length + 1, String.ofList ((opening ++ closing).rdropWhile (· == '\r')),
      opening.length⟩

/-- Line and column, in the order in which a text is read. -/
def LinePosition.rank (found : LinePosition) : Nat ×ₗ Nat :=
  toLex (found.number, found.column)

/-! ### Places between characters -/

theorem utf8ByteSize_eq (content : String) : content.utf8ByteSize = byteLength content.toList := by
  have hlength : ∀ cs : List Char, (String.ofList cs).utf8ByteSize = byteLength cs := by
    intro cs
    induction cs with
    | nil => rfl
    | cons c cs ih =>
        rw [← List.singleton_append, String.ofList_append, String.utf8ByteSize_append, ih,
          ← String.singleton_eq_ofList, String.utf8ByteSize_singleton, byteLength_append,
          byteLength_cons, byteLength_nil, Nat.add_zero]
  rw [← hlength, String.ofList_toList]

/-- A place lies between two characters just if the text is made of the characters before it and
those behind it. -/
theorem between_iff {content : String} {place : Nat} :
    Between content place ↔
      ∃ front back, content.toList = front ++ back ∧ place = byteLength front := by
  rw [Between, String.Pos.Raw.isValid_iff_exists_append]
  constructor
  · rintro ⟨front, back, rfl, hplace⟩
    refine ⟨front.toList, back.toList, String.toList_append, ?_⟩
    rw [← utf8ByteSize_eq]
    exact congrArg String.Pos.Raw.byteIdx hplace
  · rintro ⟨front, back, hcontent, rfl⟩
    refine ⟨String.ofList front, String.ofList back, ?_, ?_⟩
    · rw [← String.ofList_append, ← hcontent, String.ofList_toList]
    · have hsize := utf8ByteSize_eq (String.ofList front)
      rw [String.toList_ofList] at hsize
      rw [← hsize]
      rfl

/-- A cut reaches every boundary up to the offset. -/
theorem byteLength_le_splitAtOffset {front back : List Char} {offset : Nat}
    (h : byteLength front ≤ offset) :
    byteLength front ≤ byteLength (splitAtOffset offset (front ++ back)).1 := by
  induction front generalizing offset with
  | nil => exact Nat.zero_le _
  | cons c front ih =>
      rw [byteLength_cons] at h
      rw [List.cons_append, splitAtOffset, if_pos (by omega), byteLength_cons, byteLength_cons]
      have hrest : byteLength front ≤ offset - c.utf8Size := by omega
      have hmore := ih hrest
      omega

/-- A text is cut at the last place between characters that the offset reaches. -/
theorem isGreatest_splitAtOffset (content : String) (position : Nat) :
    IsGreatest {place | Between content place ∧ place ≤ min position content.utf8ByteSize}
      (byteLength (splitAtOffset position content.toList).1) := by
  have hcut := splitAtOffset_append position content.toList
  constructor
  · refine ⟨between_iff.mpr ⟨_, _, hcut.symm, rfl⟩, Nat.le_min.mpr ⟨?_, ?_⟩⟩
    · exact byteLength_splitAtOffset_le position content.toList
    · have hlength := congrArg byteLength hcut
      rw [byteLength_append] at hlength
      rw [utf8ByteSize_eq]
      omega
  · rintro place ⟨hbetween, hplace⟩
    obtain ⟨front, back, hcontent, rfl⟩ := between_iff.mp hbetween
    rw [hcontent]
    exact byteLength_le_splitAtOffset (Nat.le_min.mp hplace).1

/-! ### Splitting a text into lines -/

/-- The characters behind the last newline. -/
def behindNewline (cs : List Char) : List Char :=
  (untilNewline cs.reverse).reverse

theorem not_mem_untilNewline (cs : List Char) : '\n' ∉ untilNewline cs := by
  intro hmem
  have hall := List.mem_takeWhile_imp hmem
  simp at hall

theorem not_mem_behindNewline (cs : List Char) : '\n' ∉ behindNewline cs := by
  rw [behindNewline, List.mem_reverse]
  exact not_mem_untilNewline cs.reverse

/-- Up to the first newline there is all of a text, or there is one more line at least. -/
theorem untilNewline_cases (cs : List Char) :
    untilNewline cs = cs ∨ ∃ rest, cs = untilNewline cs ++ '\n' :: rest := by
  have hcut : untilNewline cs ++ cs.dropWhile (· != '\n') = cs := List.takeWhile_append_dropWhile
  cases hrest : cs.dropWhile (· != '\n') with
  | nil =>
      rw [hrest, List.append_nil] at hcut
      exact .inl hcut
  | cons c rest =>
      have hstop := List.head?_dropWhile_not (· != '\n') cs
      rw [hrest] at hstop
      obtain rfl : c = '\n' := by simpa using hstop
      rw [hrest] at hcut
      exact .inr ⟨rest, hcut.symm⟩

/-- A text is all behind its last newline, or there are lines before. -/
theorem behindNewline_cases (cs : List Char) :
    behindNewline cs = cs ∨ ∃ front, cs = front ++ '\n' :: behindNewline cs := by
  rcases untilNewline_cases cs.reverse with hall | ⟨rest, hrest⟩
  · exact .inl (by rw [behindNewline, hall, List.reverse_reverse])
  · refine .inr ⟨rest.reverse, ?_⟩
    have hreverse := congrArg List.reverse hrest
    simpa [behindNewline] using hreverse

theorem bytesThrough_cons (line : List Char) (others : List (List Char)) :
    bytesThrough (line :: others) = byteLength line + 1 + bytesThrough others := by
  rw [bytesThrough, List.flatMap_cons, byteLength_append, byteLength_append]
  rfl

theorem bytesThrough_append (first second : List (List Char)) :
    bytesThrough (first ++ second) = bytesThrough first + bytesThrough second := by
  rw [bytesThrough, List.flatMap_append, byteLength_append]
  rfl

/-- Lines and the newlines between them take up all of a text. -/
theorem bytesThrough_splitOn (cs : List Char) :
    bytesThrough (cs.splitOn '\n') = byteLength cs + 1 := by
  induction cs with
  | nil => rfl
  | cons c cs ih =>
      rw [List.splitOn_cons_eq_if_modifyHead, byteLength_cons]
      split
      · next hc =>
        obtain rfl := beq_iff_eq.mp hc
        have hsize : '\n'.utf8Size = 1 := rfl
        rw [bytesThrough_cons, ih, byteLength_nil, hsize]
        omega
      · obtain ⟨line, others, hlines⟩ := List.exists_cons_of_ne_nil (List.splitOn_ne_nil '\n' cs)
        rw [hlines, bytesThrough_cons] at ih
        rw [hlines, List.modifyHead_cons, bytesThrough_cons, byteLength_cons]
        omega

/-- There is one line more than there are newlines. -/
theorem length_splitOn (cs : List Char) : (cs.splitOn '\n').length = cs.count '\n' + 1 := by
  induction cs with
  | nil => rfl
  | cons c cs ih =>
      rw [List.splitOn_cons_eq_if_modifyHead, List.count_cons]
      split
      · rw [List.length_cons, ih]
      · rw [List.length_modifyHead, ih]

/-- The first line of a text goes up to its first newline. -/
theorem splitOn_line_append {opening : List Char} (hline : '\n' ∉ opening) (back : List Char) :
    ∃ later, (opening ++ back).splitOn '\n' = (opening ++ untilNewline back) :: later := by
  have hfree : '\n' ∉ opening ++ untilNewline back := by
    rw [List.mem_append, not_or]
    exact ⟨hline, not_mem_untilNewline back⟩
  rcases untilNewline_cases back with hall | ⟨rest, hrest⟩
  · rw [hall] at hfree ⊢
    exact ⟨[], List.splitOn_eq_singleton hfree⟩
  · refine ⟨rest.splitOn '\n', ?_⟩
    have hsplit := List.splitOn_append_cons_self_of_not_mem hfree rest
    rwa [List.append_assoc, ← hrest] at hsplit

/-- A text that is cut in two is split by its lines into those before the cut, the line with
the cut and those behind it. -/
theorem splitOn_append (front back : List Char) :
    ∃ earlier later,
      (front ++ back).splitOn '\n' =
        earlier ++ (behindNewline front ++ untilNewline back) :: later ∧
      earlier.length = front.count '\n' ∧
      byteLength front = bytesThrough earlier + byteLength (behindNewline front) := by
  have hopening := not_mem_behindNewline front
  obtain ⟨later, hlater⟩ := splitOn_line_append hopening back
  rcases behindNewline_cases front with hall | ⟨before, hbefore⟩
  · rw [hall] at hopening hlater ⊢
    exact ⟨[], later, hlater, (List.count_eq_zero.mpr hopening).symm, (Nat.zero_add _).symm⟩
  · refine ⟨before.splitOn '\n', later, ?_, ?_, ?_⟩
    · rw [← hlater, ← List.splitOn_append_cons_self, ← List.cons_append, ← List.append_assoc,
        ← hbefore]
    · have hcount := congrArg (List.count '\n') hbefore
      rw [List.count_append, List.count_cons_self, List.count_eq_zero.mpr hopening] at hcount
      rw [length_splitOn, hcount]
    · have hbytes := congrArg byteLength hbefore
      have hsize : '\n'.utf8Size = 1 := rfl
      rw [byteLength_append, byteLength_cons, hsize] at hbytes
      rw [bytesThrough_splitOn, hbytes]
      omega

/-! ### The place in its line -/

/-- A place is in one line only, and at one point of it. -/
theorem split_unique {earlier earlier' later later' : List (List Char)}
    {opening closing opening' closing' : List Char}
    (hlines : earlier ++ (opening ++ closing) :: later =
      earlier' ++ (opening' ++ closing') :: later')
    (hplace : bytesThrough earlier + byteLength opening =
      bytesThrough earlier' + byteLength opening') :
    earlier = earlier' ∧ opening = opening' ∧ closing = closing' := by
  wlog hle : earlier.length ≤ earlier'.length generalizing earlier earlier' later later' opening
    closing opening' closing'
  · obtain ⟨hearlier, hopening, hclosing⟩ := this hlines.symm hplace.symm (Nat.le_of_not_le hle)
    exact ⟨hearlier.symm, hopening.symm, hclosing.symm⟩
  · obtain ⟨between, rfl⟩ : earlier <+: earlier' :=
      List.prefix_of_prefix_length_le ⟨_, hlines⟩ ⟨_, rfl⟩ hle
    rw [List.append_assoc, List.append_cancel_left_eq] at hlines
    rw [bytesThrough_append] at hplace
    cases between with
    | nil =>
        have hline : opening ++ closing = opening' ++ closing' := (List.cons.inj hlines).1
        have hbytes : byteLength opening = byteLength opening' := by
          have hnone : bytesThrough [] = 0 := rfl
          omega
        have hcut := splitAtOffset_front opening closing
        rw [hline, hbytes, splitAtOffset_front, Prod.mk.injEq] at hcut
        exact ⟨(List.append_nil earlier).symm, hcut.1.symm, hcut.2.symm⟩
    | cons line others =>
        -- then the place would lie behind the whole line
        have hline : opening ++ closing = line := (List.cons.inj hlines).1
        rw [bytesThrough_cons, ← hline, byteLength_append] at hplace
        omega

/-- What is told of a place is determined. -/
theorem LinePosition.Tells.unique {content : String} {place : Nat} {found other : LinePosition}
    (hfound : found.Tells content place) (hother : other.Tells content place) : found = other := by
  obtain ⟨earlier, opening, closing, later, hlines, hplace, rfl⟩ := hfound
  obtain ⟨earlier', opening', closing', later', hlines', hplace', rfl⟩ := hother
  rw [hlines] at hlines'
  rw [hplace] at hplace'
  obtain ⟨rfl, rfl, rfl⟩ := split_unique hlines' hplace'
  rfl

/-- The line that is found holds the last place between characters that the position reaches. -/
theorem lineAt_tells (content : String) (position : Nat) :
    (lineAt content position).Tells content
      (byteLength (splitAtOffset position content.toList).1) := by
  obtain ⟨earlier, later, hlines, hlength, hbytes⟩ := splitOn_append
    (splitAtOffset position content.toList).1 (splitAtOffset position content.toList).2
  rw [splitAtOffset_append] at hlines
  refine ⟨earlier, _, _, later, hlines, hbytes, ?_⟩
  rw [lineAt, hlength]
  rfl

/-! ### The order of places -/

/-- Without a newline between them, a later place is further on in the same line. -/
theorem behindNewline_append {middle : List Char} (hline : '\n' ∉ middle) (front : List Char) :
    behindNewline (front ++ middle) = behindNewline front ++ middle := by
  have hall : ∀ c ∈ middle.reverse, (c != '\n') = true := by
    intro c hc
    rw [bne_iff_ne]
    rintro rfl
    exact hline (List.mem_reverse.mp hc)
  rw [behindNewline, untilNewline, List.reverse_append, List.takeWhile_append_of_pos hall,
    List.reverse_append, List.reverse_reverse]
  rfl

/-- The rank of a place counts the newlines before it and the characters behind the last one. -/
theorem rank_lineAt {content : String} {front back : List Char}
    (hcontent : content.toList = front ++ back) :
    (lineAt content (byteLength front)).rank =
      toLex (front.count '\n' + 1, (behindNewline front).length) := by
  rw [LinePosition.rank, lineAt, hcontent, splitAtOffset_front]
  rfl

/-- Of two places the later one has the higher rank. -/
theorem rank_lineAt_lt {content : String} {place later : Nat} (hplace : Between content place)
    (hlater : Between content later) (hlt : place < later) :
    (lineAt content place).rank < (lineAt content later).rank := by
  obtain ⟨front, back, hcontent, rfl⟩ := between_iff.mp hplace
  obtain ⟨front', back', hcontent', rfl⟩ := between_iff.mp hlater
  -- the earlier front is the beginning of the later one
  obtain ⟨middle, rfl⟩ : front <+: front' := by
    have hprefix : front <+: content.toList := ⟨back, hcontent.symm⟩
    have hprefix' : front' <+: content.toList := ⟨back', hcontent'.symm⟩
    rcases List.prefix_or_prefix_of_prefix hprefix hprefix' with hshort | ⟨rest, rfl⟩
    · exact hshort
    · rw [byteLength_append] at hlt
      omega
  rw [rank_lineAt hcontent, rank_lineAt hcontent', Prod.Lex.toLex_lt_toLex, List.count_append]
  by_cases hline : '\n' ∈ middle
  · have hmore := List.count_pos_iff.mpr hline
    exact .inl (by omega)
  · refine .inr ⟨by rw [List.count_eq_zero.mpr hline, Nat.add_zero], ?_⟩
    have hne : middle ≠ [] := by
      rintro rfl
      rw [List.append_nil] at hlt
      omega
    have hmore := List.length_pos_iff.mpr hne
    rw [behindNewline_append hline, List.length_append]
    omega

/-- Every position of a text stands for the last place between characters that it reaches, and what
is found for it is all that splitting the text into lines tells of that place.  Of two places the
later one comes later by line and column. -/
theorem lineAt_splits (content : String) :
    (∀ position, ∃ place,
      IsGreatest {place | Between content place ∧ place ≤ min position content.utf8ByteSize}
        place ∧
      ∀ found : LinePosition, found.Tells content place ↔ found = lineAt content position) ∧
    ∀ place later, Between content place → Between content later → place < later →
      (lineAt content place).rank < (lineAt content later).rank := by
  constructor
  · intro position
    have htells := lineAt_tells content position
    refine ⟨_, isGreatest_splitAtOffset content position, fun found => ⟨?_, ?_⟩⟩
    · exact fun hfound => hfound.unique htells
    · rintro rfl
      exact htells
  · intro place later hplace hlater hlt
    exact rank_lineAt_lt hplace hlater hlt

/-- A place on a newline comes before the one behind it. -/
theorem lineAt_accents_ordered :
    Between "né\r\nß" 4 ∧ Between "né\r\nß" 5 ∧
      lineAt "né\r\nß" 4 = ⟨1, "né", 3⟩ ∧ lineAt "né\r\nß" 6 = ⟨2, "ß", 0⟩ ∧
      (lineAt "né\r\nß" 4).rank < (lineAt "né\r\nß" 5).rank := by
  have hnewline : Between "né\r\nß" 4 :=
    between_iff.mpr ⟨['n', 'é', '\r'], ['\n', 'ß'], by decide, by decide⟩
  have hbehind : Between "né\r\nß" 5 :=
    between_iff.mpr ⟨['n', 'é', '\r', '\n'], ['ß'], by decide, by decide⟩
  exact ⟨hnewline, hbehind, by decide, by decide,
    (lineAt_splits "né\r\nß").2 4 5 hnewline hbehind (by decide)⟩

end Quill.Text
