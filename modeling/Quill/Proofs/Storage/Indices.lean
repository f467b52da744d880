import Quill.Builtin.Run
import Quill.Proofs.Scanning.Places
import Quill.Proofs.Storage.Insertion

/-!
# Indices and lengths

Three operations count the parts of an array or a string: reading at an index, storing at an index,
and the built-in function that tells the length.  The parts of an array are its elements.  The parts
of a string are its characters, and these are counted, not their bytes, although a text is stored
in bytes and a store cuts it at an offset in bytes.

Every one of these operations treats an index in the same way.  A negative integer denotes no place,
any other the place with its number, and the place either has something to offer or it does not.  So
the bounds and the fault beyond them are settled once, for any such attempt; what is left for the
single operations is to say which places have something to offer, and what.
-/

namespace Quill

/-! ### Offsets of characters -/

namespace Text

/-- The offsets at which the characters of a text start, if the text itself starts at an offset. -/
def startsFrom (offset : Nat) : List Char → List Nat
  | [] => []
  | c :: cs => offset :: startsFrom (offset + c.utf8Size) cs

/-- The offset at which the character at a place starts.  There is none at the end of a text; its
offset is the number of bytes. -/
def offsetOf (place : Nat) (cs : List Char) : Nat :=
  ((startsFrom 0 cs)[place]?).getD (byteLength cs)

/-- The text with further characters at an offset in bytes. -/
def insertAtOffset (text : String) (offset : Nat) (inserted : List Char) : String :=
  let parts := splitAtOffset offset text.toList
  String.ofList (parts.1 ++ inserted ++ parts.2)

/-- Before a character lie the bytes of the characters in front of it. -/
theorem startsFrom_getElem? {place offset : Nat} {cs : List Char} (h : place < cs.length) :
    (startsFrom offset cs)[place]? = some (offset + byteLength (cs.take place)) := by
  induction cs generalizing place offset with
  | nil => exact absurd h (Nat.not_lt_zero place)
  | cons c cs ih =>
      cases place with
      | zero => simp [startsFrom]
      | succ place =>
          rw [startsFrom, List.getElem?_cons_succ, ih (Nat.lt_of_succ_lt_succ h),
            List.take_succ_cons, byteLength_cons, Nat.add_assoc]

theorem length_startsFrom (offset : Nat) (cs : List Char) :
    (startsFrom offset cs).length = cs.length := by
  induction cs generalizing offset with
  | nil => rfl
  | cons c cs ih => rw [startsFrom, List.length_cons, ih, List.length_cons]

/-- Also at the end of a text the offset is what the characters in front take up. -/
theorem offsetOf_eq {place : Nat} {cs : List Char} (h : place ≤ cs.length) :
    offsetOf place cs = byteLength (cs.take place) := by
  rcases Nat.lt_or_eq_of_le h with hinside | rfl
  · rw [offsetOf, startsFrom_getElem? hinside, Option.getD_some, Nat.zero_add]
  · have hend : (startsFrom 0 cs)[cs.length]? = none :=
      List.getElem?_eq_none (Nat.le_of_eq (length_startsFrom 0 cs))
    rw [offsetOf, hend, Option.getD_none, List.take_length]

/-- The offset of a place is a boundary, so a text can be cut there. -/
theorem isBoundary_offsetOf {place : Nat} {cs : List Char} (h : place ≤ cs.length) :
    isBoundary (offsetOf place cs) cs = true := by
  have hfront := isBoundary_front (cs.take place) (cs.drop place)
  rwa [List.take_append_drop, ← offsetOf_eq h] at hfront

/-- Inserting at the offset of a place is inserting at the place. -/
theorem insertAtOffset_offsetOf {place : Nat} {text : String} (inserted : List Char)
    (h : place ≤ text.toList.length) :
    insertAtOffset text (offsetOf place text.toList) inserted = insertAt text place inserted := by
  have hcut := splitAtOffset_front (text.toList.take place) (text.toList.drop place)
  rw [List.take_append_drop, ← offsetOf_eq h] at hcut
  simp only [insertAtOffset, insertAt, hcut]

end Text

namespace Value

variable {index : Int64} {place length : Nat} {text inserted : String}
  {elements parts : List Value} {aggregate value : Value} {fault : Fault}

/-! ### Any attempt at an index -/

/-- An index denotes the place with its number. -/
theorem place?_eq_some_iff : place? index = some place ↔ index.toInt = place := by
  unfold place?
  split
  · next hnegative =>
    rw [Int64.lt_iff_toInt_lt, Int64.toInt_zero] at hnegative
    simp only [reduceCtorEq, false_iff]
    omega
  · next hpositive =>
    rw [Int64.lt_iff_toInt_lt, Int64.toInt_zero] at hpositive
    rw [Option.some.injEq]
    omega

/-- What comes of an index if places offer values and there are so many of them. -/
def atPlace (index : Int64) (length : Nat) (offer : Nat → Option Value) : Except Fault Value :=
  match (place? index).bind offer with
  | some value => .ok value
  | none => .error (.indexOutOfBounds index length)

section Attempts

variable {offer : Nat → Option Value}

theorem atPlace_eq_ok_iff :
    atPlace index length offer = .ok value ↔
      ∃ place : Nat, index.toInt = place ∧ offer place = some value := by
  simp only [← place?_eq_some_iff]
  rw [← Option.bind_eq_some_iff, atPlace]
  cases (place? index).bind offer with
  | none => simp
  | some found => simp

theorem eq_of_atPlace_eq_error (h : atPlace index length offer = .error fault) :
    fault = .indexOutOfBounds index length := by
  rw [atPlace] at h
  split at h
  · cases h
  · exact (Except.error.inj h).symm

/-- If the places up to a bound offer something, an index has to lie below the bound. -/
theorem atPlace_isOk_iff {bound : Nat} (h : ∀ place, (offer place).isSome ↔ place < bound) :
    (∃ value, atPlace index length offer = .ok value) ↔
      0 ≤ index.toInt ∧ index.toInt < bound := by
  constructor
  · rintro ⟨value, hok⟩
    obtain ⟨place, hplace, hvalue⟩ := atPlace_eq_ok_iff.mp hok
    have hbound : place < bound := (h place).mp (by rw [hvalue, Option.isSome_some])
    omega
  · rintro ⟨hlower, hupper⟩
    obtain ⟨value, hvalue⟩ := Option.isSome_iff_exists.mp ((h index.toInt.toNat).mpr (by omega))
    exact ⟨value, atPlace_eq_ok_iff.mpr ⟨index.toInt.toNat, by omega, hvalue⟩⟩

end Attempts

/-! ### The operations as attempts -/

/-- The characters of a text, each as a text of its own. -/
def characters (text : String) : List Value :=
  text.toList.map fun c => string (String.singleton c)

@[simp] theorem length_characters : (characters text).length = text.toList.length :=
  List.length_map _

theorem characters_insertAt (text : String) (place : Nat) (inserted : String) :
    characters (Text.insertAt text place inserted.toList) =
      (characters text).take place ++ characters inserted ++ (characters text).drop place := by
  simp only [characters, Text.insertAt, String.toList_ofList, List.map_append, List.map_take,
    List.map_drop]

theorem elementAt_array :
    (array elements).elementAt index = atPlace index elements.length (elements[·]?) := rfl

theorem elementAt_string :
    (string text).elementAt index =
      atPlace index (characters text).length ((characters text)[·]?) := by
  simp only [elementAt, atPlace, characters, List.getElem?_map, List.length_map]
  cases place? index with
  | none => rfl
  | some place =>
      simp only [Option.bind_some]
      cases text.toList[place]? with
      | none => rfl
      | some c => rfl

theorem storeAt_array :
    (array elements).storeAt index value =
      atPlace index elements.length fun place =>
        if place < elements.length then some (array (elements.set place value)) else none := by
  simp only [storeAt, atPlace]
  cases place? index with
  | none => rfl
  | some place =>
      by_cases hinside : place < elements.length
      · simp [Option.filter, hinside]
      · simp [Option.filter, hinside]

theorem storeAt_string :
    (string text).storeAt index (string inserted) =
      atPlace index text.toList.length fun place =>
        if place ≤ text.toList.length then
          some (string (Text.insertAt text place inserted.toList))
        else
          none := by
  simp only [storeAt, atPlace]
  cases place? index with
  | none => rfl
  | some place =>
      by_cases hinside : place ≤ text.toList.length
      · simp [Option.filter, hinside, Text.insertAt]
      · simp [Option.filter, hinside]

/-! ### What the operations agree on -/

/-- The built-in function for lengths tells how many parts an aggregate has, and does nothing else,
whatever the surroundings.  It answers with an integer, which is the number itself as long as
integers can hold it. -/
def Counts (aggregate : Value) (count : Nat) : Prop :=
  ∀ host console, ∃ answer : Int64,
    Builtin.length.run host [aggregate] console = .ok (.int answer) console ∧
    answer = Int64.ofNat count ∧ (count ≤ Int64.maxValue.toInt → answer.toInt = count)

theorem counts_length (aggregate : Value) : aggregate.Counts aggregate.length := by
  intro host console
  refine ⟨Int64.ofNat aggregate.length, rfl, rfl, fun hfits => ?_⟩
  have hmax : Int64.maxValue.toInt = 9223372036854775807 := rfl
  exact Int64.toInt_ofNat_of_lt (by omega)

/-- An attempt at an index of an aggregate succeeds just if the index is inside, and all that it
fails with is the fault that tells the index and the number of parts, the one that is counted. -/
structure Confined (aggregate : Value) (count : Nat) (index : Int64) (inside : Prop)
    (attempt : Except Fault Value) : Prop where
  counts : aggregate.Counts count
  succeeds : (∃ result, attempt = .ok result) ↔ inside
  fails : ∀ fault, attempt = .error fault → fault = .indexOutOfBounds index count

/-- An aggregate has just these parts: so many are counted, every index of one of them finds it, and
no other index finds anything. -/
structure ReadsAs (aggregate : Value) (parts : List Value) : Prop where
  bounds : ∀ index, Confined aggregate parts.length index
    (0 ≤ index.toInt ∧ index.toInt < parts.length) (aggregate.elementAt index)
  parts : ∀ index value, aggregate.elementAt index = .ok value →
    parts[index.toInt.toNat]? = some value

/-- Storing a value into an aggregate with so many parts succeeds just if the index is inside, and
the result has the parts that belong to the place of the index. -/
structure StoresAs (aggregate : Value) (count : Nat) (index : Int64) (value : Value)
    (inside : Prop) (parts : Nat → List Value) : Prop where
  bounds : Confined aggregate count index inside (aggregate.storeAt index value)
  reads : ∀ updated, aggregate.storeAt index value = .ok updated →
    updated.ReadsAs (parts index.toInt.toNat)

theorem confined_atPlace {offer : Nat → Option Value} {count bound : Nat}
    (hcounts : aggregate.Counts count) (hoffer : ∀ place, (offer place).isSome ↔ place < bound) :
    Confined aggregate count index (0 ≤ index.toInt ∧ index.toInt < bound)
      (atPlace index count offer) where
  counts := hcounts
  succeeds := atPlace_isOk_iff hoffer
  fails := fun _ => eq_of_atPlace_eq_error

/-- An aggregate has the parts that it counts and offers. -/
theorem readsAs_of_atPlace (hcounts : aggregate.Counts parts.length)
    (hreads : ∀ index, aggregate.elementAt index = atPlace index parts.length (parts[·]?)) :
    aggregate.ReadsAs parts where
  bounds := by
    intro index
    rw [hreads]
    exact confined_atPlace hcounts fun place => by simp
  parts := by
    intro index value hok
    rw [hreads, atPlace_eq_ok_iff] at hok
    obtain ⟨place, hplace, hvalue⟩ := hok
    rwa [hplace, Int.toNat_natCast]

theorem string_readsAs (text : String) : (string text).ReadsAs (characters text) := by
  refine readsAs_of_atPlace ?_ fun _ => elementAt_string
  rw [length_characters]
  exact counts_length (string text)

theorem array_readsAs (elements : List Value) : (array elements).ReadsAs elements :=
  readsAs_of_atPlace (counts_length (array elements)) fun _ => elementAt_array

/-- A text is stored between the characters in front of the place and the rest. -/
theorem string_storesAs (text inserted : String) (index : Int64) :
    StoresAs (string text) text.toList.length index (string inserted)
      (0 ≤ index.toInt ∧ index.toInt ≤ text.toList.length)
      (fun place =>
        (characters text).take place ++ characters inserted ++ (characters text).drop place) where
  bounds := by
    -- The end of the text is a place too, so there is one more of them than characters.
    have hplaces : index.toInt ≤ text.toList.length ↔
        index.toInt < (text.toList.length + 1 : Nat) := by omega
    rw [storeAt_string, hplaces]
    refine confined_atPlace (counts_length (string text)) fun place => ?_
    rw [Nat.lt_succ_iff]
    simp
  reads := by
    intro updated hstore
    obtain ⟨place, hplace, -, rfl⟩ := storeAt_string_eq_ok_iff.mp hstore
    rw [place?_eq_some_iff.mp hplace, Int.toNat_natCast, ← characters_insertAt]
    exact string_readsAs _

/-- A value is stored in the place of an element. -/
theorem array_storesAs (elements : List Value) (value : Value) (index : Int64) :
    StoresAs (array elements) elements.length index value
      (0 ≤ index.toInt ∧ index.toInt < elements.length)
      (fun place => elements.set place value) where
  bounds := by
    rw [storeAt_array]
    exact confined_atPlace (counts_length (array elements)) fun place => by simp
  reads := by
    intro updated hstore
    obtain ⟨place, hplace, -, rfl⟩ := storeAt_array_eq_ok_iff.mp hstore
    rw [place?_eq_some_iff.mp hplace, Int.toNat_natCast]
    exact array_readsAs _

/-- Reading, storing and the length agree on what an index is.  A string is read by character, and
a store into it succeeds also at its end; it then has the characters in front of the index, those of
the stored text and the rest, and as many as both texts together.  An array is read by element, and
a store succeeds just where a read does; it keeps the length, puts the value at the index and leaves
every other index as it was.  Whatever fails, fails with the index and the length that the built-in
function tells.

In bytes the place in a string is the offset at which its character starts, or the number of bytes
at the end.  This is always a boundary, and to store is to insert there. -/
theorem indices_agree (text inserted : String) (elements : List Value) (value : Value)
    (index : Int64) :
    ((string text).ReadsAs (characters text) ∧
      StoresAs (string text) text.toList.length index (string inserted)
        (0 ≤ index.toInt ∧ index.toInt ≤ text.toList.length)
        (fun place =>
          (characters text).take place ++ characters inserted ++ (characters text).drop place) ∧
      ∀ updated, (string text).storeAt index (string inserted) = .ok updated →
        updated.Counts (text.toList.length + inserted.toList.length) ∧
        Text.isBoundary (Text.offsetOf index.toInt.toNat text.toList) text.toList = true ∧
        updated = string (Text.insertAtOffset text
          (Text.offsetOf index.toInt.toNat text.toList) inserted.toList)) ∧
    (array elements).ReadsAs elements ∧
      StoresAs (array elements) elements.length index value
        (0 ≤ index.toInt ∧ index.toInt < elements.length)
        (fun place => elements.set place value) ∧
      ∀ updated, (array elements).storeAt index value = .ok updated →
        updated.Counts elements.length ∧
        updated.elementAt index = .ok value ∧
        ∀ other, other ≠ index → updated.elementAt other = (array elements).elementAt other := by
  refine ⟨⟨string_readsAs text, string_storesAs text inserted index, ?_⟩,
    array_readsAs elements, array_storesAs elements value index, ?_⟩
  · intro updated hstore
    obtain ⟨place, hplace, hinside, rfl⟩ := storeAt_string_eq_ok_iff.mp hstore
    rw [place?_eq_some_iff.mp hplace, Int.toNat_natCast]
    refine ⟨?_, Text.isBoundary_offsetOf hinside, ?_⟩
    · rw [← Text.length_insertAt text place]
      exact counts_length _
    · rw [Text.insertAtOffset_offsetOf _ hinside]
  · intro updated hstore
    refine ⟨?_, elementAt_of_storeAt hstore, fun _ => elementAt_of_storeAt_of_ne hstore⟩
    obtain ⟨place, -, -, rfl⟩ := storeAt_array_eq_ok_iff.mp hstore
    rw [← List.length_set]
    exact counts_length _

/-- Characters of two and four bytes: the third one starts at the fourth byte, and a text that is
stored there is the third character then. -/
theorem indices_agree_on_wide_characters :
    (string "aé😀").storeAt 2 (string "ß") = .ok (string "aéß😀") ∧
    Text.offsetOf 2 "aé😀".toList = 3 ∧
    (string "aéß😀").ReadsAs [string "a", string "é", string "ß", string "😀"] ∧
    (string "aéß😀").Counts 4 ∧
    (array [int 5, int 6, int 7]).storeAt 2 (int 8) = .ok (array [int 5, int 6, int 8]) ∧
    (array [int 5, int 6, int 8]).ReadsAs [int 5, int 6, int 8] := by
  obtain ⟨⟨-, hstores, hbytes⟩, -, hreplaces, -⟩ :=
    indices_agree "aé😀" "ß" [int 5, int 6, int 7] (int 8) 2
  have hstring : (string "aé😀").storeAt 2 (string "ß") = .ok (string "aéß😀") := rfl
  have harray : (array [int 5, int 6, int 7]).storeAt 2 (int 8) =
      .ok (array [int 5, int 6, int 8]) := rfl
  exact ⟨hstring, rfl, hstores.reads _ hstring, (hbytes _ hstring).1, harray,
    hreplaces.reads _ harray⟩

end Value

end Quill
