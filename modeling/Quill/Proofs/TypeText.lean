import Quill.Ty

/-!
# Types as they are shown

The text of a type tells the type.  Nothing marks where the result of a function ends, and the comma
between parameters also stands inside parameters that are functions themselves; yet no text of a
type goes on where another one ends.  So a text that begins with a type tells that type and what is
behind it (`text_append_inj`), and the same is true of a list of types up to its closing bracket.
-/

namespace Quill.Ty

/-- What is shown behind the first type of a list. -/
def tailText : List Ty → String
  | [] => ""
  | types => ", " ++ textList types

theorem textList_cons (type : Ty) (others : List Ty) :
    textList (type :: others) = type.text ++ tailText others := by
  cases others with
  | nil => simp [textList, tailText]
  | cons other others => simp [textList, tailText, String.append_assoc]

theorem toList_text_array (element : Ty) :
    (array element).text.toList = '[' :: (element.text.toList ++ [']']) := by
  simp [text]

theorem toList_text_function (parameters : List Ty) (result : Ty) :
    (function parameters result).text.toList =
      'f' :: 'n' :: '(' :: ((textList parameters).toList ++ ')' :: ' ' :: result.text.toList) := by
  simp [text]

theorem toList_text_variadic (result : Ty) :
    (variadic result).text.toList =
      'f' :: 'n' :: '(' :: '.' :: '.' :: '.' :: ')' :: ' ' :: result.text.toList := by
  simp [text]

/-- A type is not taken for the end of a list, nor for the dots of a variadic function. -/
theorem text_append_ne (type : Ty) {c : Char} (hc : c = ')' ∨ c = '.') {rest rest' : List Char} :
    type.text.toList ++ rest ≠ c :: rest' := by
  rcases hc with rfl | rfl
  · cases type <;> simp [text]
  · cases type <;> simp [text]

/-- A list with a type in it is not taken for an empty one, nor for the dots. -/
theorem textList_cons_append_ne (type : Ty) (others : List Ty) {c : Char} (hc : c = ')' ∨ c = '.')
    {rest rest' : List Char} : (textList (type :: others)).toList ++ rest ≠ c :: rest' := by
  rw [textList_cons, String.toList_append, List.append_assoc]
  exact type.text_append_ne hc

/-- The parameters of a function are not taken for those of a variadic one. -/
theorem textList_ne_dots (types : List Ty) {rest rest' : List Char} :
    (textList types).toList ++ ')' :: rest ≠ '.' :: rest' := by
  cases types with
  | nil => simp [textList]
  | cons type others => exact textList_cons_append_ne type others (.inr rfl)

mutual

/-- A text that begins with a type tells the type and what is behind it. -/
theorem text_append_inj : (type other : Ty) → {rest rest' : List Char} →
    type.text.toList ++ rest = other.text.toList ++ rest' → type = other ∧ rest = rest'
  | int, other, _, _, h | float, other, _, _, h | string, other, _, _, h | bool, other, _, _, h
  | void, other, _, _, h => by
      -- Simple types have different names, none of which begins another.
      cases other <;> simp [text] at h ⊢
      exact h
  | array element, other, _, _, h => by
      cases other with
      | array element' =>
          simp only [toList_text_array, List.cons_append, List.append_assoc, List.cons.injEq,
            true_and] at h
          obtain ⟨rfl, hrest⟩ := text_append_inj element element' h
          exact ⟨rfl, (List.cons.inj hrest).2⟩
      | _ => simp [text] at h
  | function parameters result, other, _, _, h => by
      cases other with
      | function parameters' result' =>
          simp only [toList_text_function, List.cons_append, List.append_assoc, List.cons.injEq,
            true_and] at h
          obtain ⟨rfl, hbehind⟩ := textList_append_inj parameters parameters' h
          obtain ⟨rfl, hrest⟩ := text_append_inj result result' (List.cons.inj hbehind).2
          exact ⟨rfl, hrest⟩
      | variadic result' =>
          simp only [toList_text_function, toList_text_variadic, List.cons_append,
            List.append_assoc, List.cons.injEq, true_and] at h
          exact absurd h (textList_ne_dots parameters)
      | _ => simp [text] at h
  | variadic result, other, _, _, h => by
      cases other with
      | function parameters' result' =>
          simp only [toList_text_function, toList_text_variadic, List.cons_append,
            List.append_assoc, List.cons.injEq, true_and] at h
          exact absurd h.symm (textList_ne_dots parameters')
      | variadic result' =>
          simp only [toList_text_variadic, List.cons_append, List.cons.injEq, true_and] at h
          obtain ⟨rfl, hrest⟩ := text_append_inj result result' h
          exact ⟨rfl, hrest⟩
      | _ => simp [text] at h

/-- A text that begins with a list of types and a closing bracket tells the list and what is behind
the bracket. -/
theorem textList_append_inj : (types others : List Ty) → {rest rest' : List Char} →
    (textList types).toList ++ ')' :: rest = (textList others).toList ++ ')' :: rest' →
    types = others ∧ rest = rest'
  | [], [], _, _, h => ⟨rfl, (List.cons.inj h).2⟩
  | [], other :: others, _, _, h => absurd h.symm (textList_cons_append_ne other others (.inl rfl))
  | type :: types, [], _, _, h => absurd h (textList_cons_append_ne type types (.inl rfl))
  | type :: types, other :: others, _, _, h => by
      rw [textList_cons, textList_cons, String.toList_append, String.toList_append,
        List.append_assoc, List.append_assoc] at h
      obtain ⟨rfl, htail⟩ := text_append_inj type other h
      -- Behind the first type there is a comma, or the bracket that closes the list.
      cases types with
      | nil =>
          cases others with
          | nil => exact ⟨rfl, (List.cons.inj htail).2⟩
          | cons second others => simp [tailText] at htail
      | cons next types =>
          cases others with
          | nil => simp [tailText] at htail
          | cons second others =>
              simp only [tailText, String.toList_append, List.append_assoc] at htail
              obtain ⟨hsame, hrest⟩ := textList_append_inj (next :: types) (second :: others)
                (List.append_cancel_left htail)
              exact ⟨by rw [hsame], hrest⟩

end

/-- Types with the same text are the same. -/
theorem eq_of_text_eq {type other : Ty} (h : type.text = other.text) : type = other :=
  (text_append_inj type other (congrArg (·.toList ++ []) h)).1

end Quill.Ty
