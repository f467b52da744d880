import Quill.Proofs.Storage.WriteBack

/-!
# Writing into strings

A write to a place in a string inserts there, while a write to an element of an array replaces it.
A way into a variable can lead through arrays to a string, and then on into that string: a character
of it is a string again, and so is the character of that.  Only the string at the end of the arrays
is stored; everything behind it is made when it is read.

The write-back does not know the difference.  A text that is written to a place in a character is
joined with that character, and what comes of it is inserted in front of the character, which stays
where it was.  So of the indices into one string all but the first leave a copy of the character
behind: the text is inserted once, but alone only if there is a single such index.
-/

namespace Quill

/-- The text with further characters at a place. -/
def Text.insertAt (text : String) (place : Nat) (inserted : List Char) : String :=
  String.ofList (text.toList.take place ++ inserted ++ text.toList.drop place)

theorem Text.length_insertAt (text : String) (place : Nat) (inserted : List Char) :
    (insertAt text place inserted).toList.length = text.toList.length + inserted.length := by
  simp only [insertAt, String.toList_ofList, List.length_append, List.length_take,
    List.length_drop]
  omega

/-! ### One string -/

namespace Value

variable {index : Int64} {text inserted : String} {value updated : Value} {c : Char}

theorem elementAt_string_eq_ok_iff :
    (string text).elementAt index = .ok value ↔
      ∃ place c, place? index = some place ∧ text.toList[place]? = some c ∧
        value = string (String.singleton c) := by
  simp only [elementAt]
  cases hplace : place? index with
  | none => simp
  | some place =>
      cases hchar : text.toList[place]? with
      | none => simp [hchar]
      | some c => simp [hchar, eq_comm]

theorem storeAt_string_eq_ok_iff :
    (string text).storeAt index (string inserted) = .ok updated ↔
      ∃ place, place? index = some place ∧ place ≤ text.toList.length ∧
        updated = string (Text.insertAt text place inserted.toList) := by
  simp only [storeAt]
  cases hplace : place? index with
  | none => simp
  | some place =>
      by_cases hlength : place ≤ text.toList.length
      · simp [Option.filter, hlength, Text.insertAt, eq_comm]
      · simp [Option.filter, hlength]

/-- A character has one character, itself. -/
theorem elementAt_singleton (h : (string (String.singleton c)).elementAt index = .ok value) :
    value = string (String.singleton c) := by
  obtain ⟨place, found, -, hfound, rfl⟩ := elementAt_string_eq_ok_iff.mp h
  have hmem := List.mem_of_getElem? hfound
  rw [String.toList_singleton, List.mem_singleton] at hmem
  rw [hmem]

/-- A text that is stored into a character comes in front of it or behind it. -/
theorem storeAt_singleton
    (h : (string (String.singleton c)).storeAt index (string inserted) = .ok updated) :
    ∃ front back, front ++ back = [c] ∧
      updated = string (String.ofList (front ++ inserted.toList ++ back)) := by
  obtain ⟨place, -, -, rfl⟩ := storeAt_string_eq_ok_iff.mp h
  refine ⟨[c].take place, [c].drop place, List.take_append_drop place [c], ?_⟩
  simp [Text.insertAt]

end Value

/-! ### Ways that lead into a string -/

namespace Location

variable {scope updated : Scope Value} {name : String} {indices way more : List Int64}
  {first last : Int64} {stored text : String} {value : Value}

/-- A way on which something is read leads through arrays, up to its end or up to a string. -/
theorem through_arrays_or_string (h : (path name indices).read scope = .ok value) :
    ThroughArrays scope name indices ∨
      ∃ way first more stored, indices = way ++ first :: more ∧ ThroughArrays scope name way ∧
        (path name way).read scope = .ok (.string stored) := by
  induction indices using List.reverseRecOn generalizing value with
  | nil =>
      left
      intro way hway hshort
      exact absurd (List.prefix_nil.mp hway) hshort
  | append_singleton indices index ih =>
      rw [path_concat, read] at h
      cases hbase : (path name indices).read scope with
      | error fault => simp [hbase] at h
      | ok aggregate =>
          rw [hbase] at h
          rcases ih hbase with harrays | ⟨way, first, more, stored, rfl, harrays, hstored⟩
          -- Up to here the way leads through arrays, so what is indexed next decides.
          · cases aggregate with
            | array elements =>
                left
                intro way hway hshort
                rcases List.prefix_concat_iff.mp hway with hwhole | hfront
                · exact absurd hwhole hshort
                · by_cases hend : way = indices
                  · exact ⟨elements, hend ▸ hbase⟩
                  · exact harrays way hfront hend
            | string found => exact .inr ⟨indices, index, [], found, rfl, harrays, hbase⟩
            | _ => cases h
          · exact .inr ⟨way, first, more ++ [index], stored, by simp, harrays, hstored⟩

/-- Behind a string there is only the character that the first index finds. -/
theorem read_into_string (hstored : (path name way).read scope = .ok (.string stored))
    (h : (path name (way ++ first :: more)).read scope = .ok value) :
    ∃ place c, Value.place? first = some place ∧ stored.toList[place]? = some c ∧
      value = .string (String.singleton c) := by
  induction more using List.reverseRecOn generalizing value with
  | nil =>
      rw [path_concat, read, hstored] at h
      exact Value.elementAt_string_eq_ok_iff.mp h
  | append_singleton more index ih =>
      rw [← List.cons_append, ← List.append_assoc, path_concat, read] at h
      cases hbase : (path name (way ++ first :: more)).read scope with
      | error fault => simp [hbase] at h
      | ok aggregate =>
          obtain ⟨place, c, hplace, hchar, rfl⟩ := ih hbase
          rw [hbase] at h
          exact ⟨place, c, hplace, hchar, Value.elementAt_singleton h⟩

/-- A text that is written along a way into a string is written to the string itself, with one copy
of the character in question, in front of the text or behind it, for every index but the first.  The
induction is on the number of these indices: each of them makes the text longer by the character
that it reads, and writes the longer text with the index in front of it. -/
theorem write_into_string (hstored : (path name way).read scope = .ok (.string stored))
    (h : (path name (way ++ first :: more)).write scope (.string text) = .ok updated) :
    ∃ place front back, Value.place? first = some place ∧ place ≤ stored.toList.length ∧
      (path name way).write scope
        (.string (Text.insertAt stored place (front ++ text.toList ++ back))) = .ok updated ∧
      (front ++ back).length = more.length ∧
      ∀ c ∈ front ++ back, stored.toList[place]? = some c := by
  induction more using List.reverseRecOn generalizing text with
  | nil =>
      rw [path_concat, write_element_eq_ok_iff, hstored] at h
      obtain ⟨_, _, ⟨⟩, hstore, hback⟩ := h
      obtain ⟨place, hplace, hinside, rfl⟩ := Value.storeAt_string_eq_ok_iff.mp hstore
      exact ⟨place, [], [], hplace, hinside, by simpa using hback, rfl, by simp⟩
  | append_singleton more index ih =>
      rw [← List.cons_append, ← List.append_assoc, path_concat, write_element_eq_ok_iff] at h
      obtain ⟨aggregate, longer, hread, hstore, hback⟩ := h
      obtain ⟨place, c, hplace, hchar, rfl⟩ := read_into_string hstored hread
      obtain ⟨left, right, hjoined, rfl⟩ := Value.storeAt_singleton hstore
      obtain ⟨place', front, back, hplace', hinside, hwrite, hlength, hcopies⟩ := ih hback
      obtain rfl : place = place' := Option.some.inj (hplace.symm.trans hplace')
      refine ⟨place, front ++ left, right ++ back, hplace, hinside, ?_, ?_, ?_⟩
      · simpa using hwrite
      · have hone : left.length + right.length = 1 := by
          simpa using congrArg List.length hjoined
        simp only [List.length_append, List.length_singleton] at hlength ⊢
        omega
      · intro d hd
        by_cases hmiddle : d ∈ left ++ right
        · rw [hjoined, List.mem_singleton] at hmiddle
          rw [hmiddle, hchar]
        · apply hcopies
          simp only [List.mem_append] at hd hmiddle ⊢
          tauto

/-- The string at the end of a way through arrays has grown by an insertion, and nothing else that
is stored has changed: neither what lies off the way, nor any other binding in any frame. -/
structure Inserts (scope updated : Scope Value) (name : String) (way : List Int64)
    (stored : String) (place : Nat) (inserted : List Char) : Prop where
  arrays : ThroughArrays scope name way
  before : (path name way).read scope = .ok (.string stored)
  inside : place ≤ stored.toList.length
  after : (path name way).read updated = .ok (.string (Text.insertAt stored place inserted))
  others : ∀ other, ¬ other <+: way → ¬ way <+: other →
    (path name other).read updated = (path name other).read scope
  bindings : ∃ id root, scope.find? name = some id ∧ updated = scope.insertIn id name root ∧
    ∀ frame asked, (frame, asked) ≠ (id, name) →
      updated.getIn? frame asked = scope.getIn? frame asked

theorem inserts_of_write {inserted : List Char} {place : Nat}
    (harrays : ThroughArrays scope name way)
    (hstored : (path name way).read scope = .ok (.string stored))
    (hinside : place ≤ stored.toList.length)
    (h : (path name way).write scope (.string (Text.insertAt stored place inserted)) =
      .ok updated) : Inserts scope updated name way stored place inserted where
  arrays := harrays
  before := hstored
  inside := hinside
  after := read_of_write harrays h
  others := fun _ hshorter hlonger => read_of_write_of_diverges harrays h hshorter hlonger
  bindings := by
    obtain ⟨id, root, hfind, rfl⟩ := rebinds_of_write h
    refine ⟨id, root, hfind, rfl, fun frame asked hother => ?_⟩
    exact Scope.getIn?_insertIn_of_ne (Scope.mem_of_find? hfind) root hother

/-- Writing a text where the last of any number of indices goes into a string.  The way leads
through arrays to one stored string, and there is a first index into that string and some more
behind it.  The text is inserted into the stored string at the place of the first index, and with it
as many copies of the character at that place as there are more indices; nothing else changes.  So
the text is inserted alone just if a single index goes into the string. -/
theorem string_write_inserts {reached : String}
    (hreached : (path name indices).read scope = .ok (.string reached))
    (hwrite : (path name (indices ++ [last])).write scope (.string text) = .ok updated) :
    ∃ way first more stored place front back,
      indices ++ [last] = way ++ first :: more ∧ Value.place? first = some place ∧
      Inserts scope updated name way stored place (front ++ text.toList ++ back) ∧
      (front ++ back).length = more.length ∧
      (∀ c ∈ front ++ back, stored.toList[place]? = some c) ∧
      (Text.insertAt stored place (front ++ text.toList ++ back)).toList.length =
        stored.toList.length + text.toList.length + more.length := by
  obtain ⟨way, first, more, stored, hsplit, harrays, hstored⟩ :
      ∃ way first more stored, indices ++ [last] = way ++ first :: more ∧
        ThroughArrays scope name way ∧ (path name way).read scope = .ok (.string stored) := by
    rcases through_arrays_or_string hreached with harrays | ⟨way, first, more, stored, rfl, hrest⟩
    · exact ⟨indices, last, [], reached, rfl, harrays, hreached⟩
    · exact ⟨way, first, more ++ [last], stored, by simp, hrest⟩
  rw [hsplit] at hwrite
  obtain ⟨place, front, back, hplace, hinside, hinsert, hlength, hcopies⟩ :=
    write_into_string hstored hwrite
  refine ⟨way, first, more, stored, place, front, back, hsplit, hplace,
    inserts_of_write harrays hstored hinside hinsert, hlength, hcopies, ?_⟩
  rw [Text.length_insertAt, ← hlength]
  simp only [List.length_append]
  omega

/-- A list of words in the global frame. -/
def wordsInGlobals : Scope Value :=
  .ofGlobals [("words", .array [.string "tea", .string "abc"])]

theorem write_into_words :
    (path "words" [1]).read wordsInGlobals = .ok (.string "abc") ∧
    ∃ updated, (path "words" ([1] ++ [3])).write wordsInGlobals (.string "de") = .ok updated ∧
      ∃ way first more stored place front back,
        [1] ++ [3] = way ++ first :: more ∧ Value.place? first = some place ∧
        Inserts wordsInGlobals updated "words" way stored place (front ++ "de".toList ++ back) ∧
        (front ++ back).length = more.length := by
  have hreached : (path "words" [1]).read wordsInGlobals = .ok (.string "abc") := rfl
  obtain ⟨updated, hwrite⟩ : ∃ updated,
      (path "words" ([1] ++ [3])).write wordsInGlobals (.string "de") = .ok updated := ⟨_, rfl⟩
  obtain ⟨way, first, more, stored, place, front, back, hsplit, hplace, hinserts, hlength, -⟩ :=
    string_write_inserts hreached hwrite
  exact ⟨hreached, updated, hwrite, way, first, more, stored, place, front, back, hsplit, hplace,
    hinserts, hlength⟩

/-- A word in the global frame. -/
def wordInGlobals : Scope Value :=
  .ofGlobals [("s", .string "abc")]

/-- A text that is written in front of the character `b` of a word, as the character of a character,
is not inserted alone: the `b` is there twice afterwards. -/
theorem write_into_character_repeats_it :
    (path "s" [1]).read wordInGlobals = .ok (.string "b") ∧
    ∃ updated, (path "s" ([1] ++ [0])).write wordInGlobals (.string "X") = .ok updated ∧
      (path "s" []).read updated = .ok (.string "aXbbc") ∧
      ∀ way stored place, ¬ Inserts wordInGlobals updated "s" way stored place ['X'] := by
  refine ⟨rfl, _, rfl, rfl, fun way stored place h => ?_⟩
  -- The variable holds a string, so no way through arrays goes further than to the variable.
  obtain rfl : way = [] := by
    by_contra hlonger
    obtain ⟨elements, hread⟩ := h.arrays [] List.nil_prefix (Ne.symm hlonger)
    cases hread
  have hbefore : Value.string "abc" = .string stored := Except.ok.inj h.before
  have hafter : Value.string "aXbbc" = .string (Text.insertAt stored place ['X']) :=
    Except.ok.inj h.after
  have hlength := Text.length_insertAt stored place ['X']
  rw [← Value.string.inj hafter, ← Value.string.inj hbefore] at hlength
  exact absurd hlength (by decide)

end Location

end Quill
