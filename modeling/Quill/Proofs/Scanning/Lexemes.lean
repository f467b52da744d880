import Quill.Proofs.Lexing

/-!
# Lexemes in a text

A lexeme that is read from a text is a front part of it.  A string is open if it runs to the end of
the text without a closing quote; every other lexeme would be read again from its own characters
alone.
-/

namespace Quill

namespace Lexeme

/-- The ways in which a lexeme stands in front of a text. -/
inductive Stands (lexeme : Lexeme) (rest : List Char) : Prop
  | plain (kind : lexeme.kind ≠ .stringLiteral) (read : lexeme? lexeme.text = some lexeme)
  | closed (inner : List Char) (unquoted : '"' ∉ inner)
    (eq : lexeme = ⟨.stringLiteral, '"' :: (inner ++ ['"'])⟩)
  | unclosed (inner : List Char) (unquoted : '"' ∉ inner)
    (eq : lexeme = ⟨.stringLiteral, '"' :: inner⟩) (last : rest = [])

/-- What a lexeme other than a string stands for is its text. -/
theorem value_of_kind_ne {lexeme : Lexeme} (hkind : lexeme.kind ≠ .stringLiteral) :
    lexeme.value = lexeme.text := by
  rw [value]
  split
  · next hstring => exact absurd hstring hkind
  · rfl

/-- An opening quote does not belong to what a string stands for. -/
theorem value_unclosed {text : List Char} (hunquoted : '"' ∉ text) :
    Lexeme.value ⟨.stringLiteral, '"' :: text⟩ = text := by
  have hrun : ∀ c ∈ text, (c != '"') = true := by
    intro c hc
    rw [bne_iff_ne]
    rintro rfl
    exact hunquoted hc
  have htake : (text ++ []).takeWhile (· != '"') = text :=
    (takeWhile_append_of_head hrun (by simp)).1
  rwa [List.append_nil] at htake

/-- Up to the next quote there is none. -/
theorem not_mem_takeWhile_quote (cs : List Char) : '"' ∉ cs.takeWhile (· != '"') := by
  intro hmem
  have hall := List.all_takeWhile (p := (· != '"')) (l := cs)
  rw [List.all_eq_true] at hall
  exact absurd (hall _ hmem) (by decide)

/-- What is behind an opening quote goes on to the next quote, or to the end. -/
theorem throughQuote_cases (cs : List Char) :
    (∃ rest, cs = cs.takeWhile (· != '"') ++ '"' :: rest ∧
      throughQuote cs = cs.takeWhile (· != '"') ++ ['"']) ∨
    (cs.takeWhile (· != '"') = cs ∧ throughQuote cs = cs) := by
  induction cs with
  | nil => exact .inr ⟨rfl, rfl⟩
  | cons c cs ih =>
      by_cases hc : c = '"'
      · subst hc
        exact .inl ⟨cs, rfl, rfl⟩
      · have htake : (c :: cs).takeWhile (· != '"') = c :: cs.takeWhile (· != '"') := by
          simp [hc]
        have hthrough : throughQuote (c :: cs) = c :: throughQuote cs := by
          simp [throughQuote, hc]
        rw [htake, hthrough]
        rcases ih with ⟨rest, hcs, hquote⟩ | ⟨hall, hquote⟩
        · left
          refine ⟨rest, ?_, by rw [hquote, List.cons_append]⟩
          rw [List.cons_append, ← hcs]
        · right
          rw [hall, hquote]
          exact ⟨rfl, rfl⟩

/-- A word is a front part of the text, and is read from its own characters. -/
theorem word_front {c : Char} (cs : List Char) (hstart : isWordStart c) :
    ∃ rest, c :: cs = (word (c :: cs)).text ++ rest ∧ (word (c :: cs)).Stands rest := by
  have hhead : (c :: cs).takeWhile isWordPart = c :: cs.takeWhile isWordPart := by
    simp [isWordPart_of_isWordStart hstart]
  refine ⟨(c :: cs).dropWhile isWordPart, List.takeWhile_append_dropWhile.symm, .plain ?_ ?_⟩
  · intro hkind
    have hword := TokenKind.isWord_ofWord (String.ofList ((c :: cs).takeWhile isWordPart))
    have hstring : TokenKind.ofWord (String.ofList ((c :: cs).takeWhile isWordPart))
        = .stringLiteral := hkind
    rw [hstring] at hword
    exact absurd hword (by decide)
  · have hown : (word (c :: cs)).text = c :: cs.takeWhile isWordPart := hhead
    have hparts := List.all_takeWhile (p := isWordPart) (l := c :: cs)
    rw [hhead, List.all_eq_true] at hparts
    have hagain : (c :: cs.takeWhile isWordPart ++ []).takeWhile isWordPart = _ :=
      (takeWhile_append_of_head hparts (by simp)).1
    rw [List.append_nil] at hagain
    rw [hown, lexeme?, if_pos hstart, word, word, hagain, hhead]

/-- A number is a front part of the text. -/
theorem number_front (cs : List Char) : ∃ rest, cs = (number cs).text ++ rest := by
  have hcut : cs.takeWhile Char.isDigit ++ cs.dropWhile Char.isDigit = cs :=
    List.takeWhile_append_dropWhile
  simp only [number]
  split
  · next more hpoint =>
      split
      · exact ⟨cs.dropWhile Char.isDigit, hcut.symm⟩
      · refine ⟨more.dropWhile Char.isDigit, ?_⟩
        rw [List.append_assoc, List.cons_append, List.takeWhile_append_dropWhile, ← hpoint, hcut]
  · exact ⟨cs.dropWhile Char.isDigit, hcut.symm⟩

/-- A number is read from its own characters. -/
theorem number_own_text (cs : List Char) : number (number cs).text = number cs := by
  have hwhole := List.all_takeWhile (p := Char.isDigit) (l := cs)
  rw [List.all_eq_true] at hwhole
  rcases number_cases cs with h | ⟨decimals, hsome, hdecimals, h⟩
  · have hread : number (cs.takeWhile Char.isDigit ++ []) = _ :=
      number_of_digits hwhole (by simp)
    rw [List.append_nil] at hread
    rw [h, hread]
  · have hread : number (cs.takeWhile Char.isDigit ++ '.' :: decimals ++ []) = _ :=
      number_of_decimals hwhole hdecimals hsome (by simp)
    rw [List.append_nil] at hread
    rw [h, hread]

/-- A mark is a front part of the text, and is read from its own signs. -/
theorem mark?_front {cs : List Char} {lexeme : Lexeme} (hread : mark? cs = some lexeme) :
    (∃ rest, cs = lexeme.text ++ rest) ∧ lexeme.kind ≠ .stringLiteral ∧
      lexeme? lexeme.text = some lexeme := by
  unfold mark? at hread
  split at hread
  all_goals
    cases hread
    try exact ⟨⟨_, rfl⟩, by decide, by decide⟩

end Lexeme

/-- What is read at the front of a text stands there. -/
theorem lexeme?_stands {cs : List Char} {lexeme : Lexeme} (hread : lexeme? cs = some lexeme) :
    ∃ rest, cs = lexeme.text ++ rest ∧ lexeme.Stands rest := by
  cases cs with
  | nil => cases hread
  | cons c cs =>
      simp only [lexeme?] at hread
      split at hread
      · next hstart =>
          cases hread
          exact Lexeme.word_front cs hstart
      · split at hread
        · next hstart hdigit =>
            cases hread
            obtain ⟨rest, hfront⟩ := Lexeme.number_front (c :: cs)
            refine ⟨rest, hfront, .plain ?_ ?_⟩
            · rcases Lexeme.number_cases (c :: cs) with h | ⟨_, _, _, h⟩ <;> simp [h]
            · have hstarts : (Lexeme.number (c :: cs)).StartsWith c := Lexeme.number_start hdigit
              obtain ⟨others, htext⟩ := List.head?_eq_some_iff.1 hstarts.head
              have hown := Lexeme.number_own_text (c :: cs)
              rw [htext] at hown ⊢
              rw [lexeme?, if_neg hstart, if_pos hdigit, hown]
        · split at hread
          -- A string is closed by the next quote, and if there is none it takes all that is left.
          · next hquote =>
              cases hread
              obtain rfl := beq_iff_eq.1 hquote
              have hfree := Lexeme.not_mem_takeWhile_quote cs
              rcases Lexeme.throughQuote_cases cs with ⟨rest, hcs, hthrough⟩ | ⟨hall, hthrough⟩
              · refine ⟨rest, ?_, .closed _ hfree ?_⟩
                · simp only [hthrough, List.cons_append, List.append_assoc, List.nil_append]
                  rw [← hcs]
                · rw [hthrough]
              · rw [hall] at hfree
                refine ⟨[], ?_, .unclosed cs hfree ?_ rfl⟩
                · simp only [hthrough, List.append_nil]
                · rw [hthrough]
          · obtain ⟨⟨rest, hfront⟩, hkind, hown⟩ := Lexeme.mark?_front hread
            exact ⟨rest, hfront, .plain hkind hown⟩

namespace Lexeme

/-- No lexeme is empty. -/
theorem text_ne_nil {cs : List Char} {lexeme : Lexeme} (hread : lexeme? cs = some lexeme) :
    lexeme.text ≠ [] := by
  cases cs with
  | nil => cases hread
  | cons c cs =>
      intro hnil
      have hhead := (lexeme?_start hread).head
      rw [hnil] at hhead
      cases hhead

end Lexeme

end Quill
