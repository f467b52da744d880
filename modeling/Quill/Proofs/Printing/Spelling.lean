import Quill.Proofs.Printing.Tree

/-!
# Spelling of printed expressions

Every lexeme of a printed tree is whole, and each ends in front of the next one: behind an operand
comes a mark or the end, and behind an operator comes an operand.  So a printed tree can be written
with any blanks, or with none.
-/

namespace Quill

/-- A word that is not reserved is read as one lexeme. -/
theorem Identifier.whole (ident : Identifier) : ident.lexeme.Whole where
  read := by
    obtain ⟨c, hhead, hstart⟩ := ident.starts
    obtain ⟨cs, htext⟩ := List.head?_eq_some_iff.1 hhead
    have hparts := ident.parts
    rw [htext] at hparts
    have hrun : (c :: cs ++ []).takeWhile Lexeme.isWordPart = c :: cs :=
      (Lexeme.takeWhile_append_of_head hparts (by simp)).1
    rw [List.append_nil] at hrun
    have hword : String.ofList (c :: cs) = ident.text := by
      rw [← htext, String.ofList_toList]
    simp only [lexeme, htext, lexeme?, hstart, if_true, Lexeme.word, hrun, hword, ident.free]
  closed := rfl

/-- A text that starts with a digit starts with a number. -/
theorem lexeme?_of_digits {digits rest : List Char} (hsome : digits ≠ [])
    (hdigits : ∀ c ∈ digits, c.isDigit) :
    lexeme? (digits ++ rest) = some (Lexeme.number (digits ++ rest)) := by
  obtain ⟨c, cs, rfl⟩ := List.exists_cons_of_ne_nil hsome
  have hdigit : c.isDigit := hdigits c (by simp)
  simp only [List.cons_append, lexeme?, Lexeme.isWordStart_of_isDigit hdigit, hdigit, if_true]
  rfl

namespace Atom

/-- Every atom is printed as one lexeme. -/
theorem whole (atom : Atom) : atom.lexeme.Whole := by
  cases atom with
  | int value nonneg =>
      have hdigits : ∀ c ∈ Nat.toDigits 10 value.toInt.toNat, c.isDigit := fun c hc =>
        Nat.isDigit_of_mem_toDigits (by decide) (by decide) hc
      refine ⟨?_, rfl⟩
      have hread : lexeme? (Nat.toDigits 10 value.toInt.toNat ++ []) = _ :=
        lexeme?_of_digits Nat.toDigits_ne_nil hdigits
      rw [Lexeme.number_of_digits hdigits (by simp), List.append_nil] at hread
      exact hread
  | float number =>
      refine ⟨?_, rfl⟩
      have hread : lexeme? (number.whole ++ ('.' :: number.decimals ++ [])) = _ :=
        lexeme?_of_digits number.wholeSome number.wholeDigits
      rw [← List.append_assoc, Lexeme.number_of_decimals number.wholeDigits number.decimalsDigits
        number.decimalsSome (by simp), List.append_nil] at hread
      exact hread
  | string text unquoted => exact Lexeme.whole_quoted unquoted
  | bool value => cases value <;> exact ⟨by decide, by decide⟩
  | name ident => exact ident.whole

end Atom

/-- The characters with which the marks start that can follow an operand. -/
def markChars : List Char :=
  ['(', ')', '[', ']', ',', '=', '!', '<', '>', '+', '-', '*', '/']

namespace Lexeme

/-- Whether nothing follows, or a mark. -/
def MarkFirst (rest : List Lexeme) : Prop :=
  ∀ next ∈ rest.head?, ∀ c ∈ next.text.head?, c ∈ markChars

/-- Whether what follows goes on with no operator. -/
def OperandFirst (rest : List Lexeme) : Prop :=
  ∀ next ∈ rest.head?, ∀ c ∈ next.text.head?, c ≠ '=' ∧ c ≠ '/'

/-- An operand in front of a mark, as far as single characters go. -/
theorem endsBefore_mark {lexeme : Lexeme} (hoperand : lexeme.kind.isWord ∨
      lexeme.kind ∈ [.intLiteral, .floatLiteral, .stringLiteral, .closeParen, .closeBracket])
    {c : Char} (hmark : c ∈ markChars) : lexeme.endsBefore c := by
  have hmarks : markChars.all fun c => !isWordPart c && !c.isDigit && c != '.' := by decide
  have hplain := List.all_eq_true.1 hmarks c hmark
  simp only [Bool.and_eq_true, Bool.not_eq_true', bne_iff_ne] at hplain
  obtain ⟨⟨hword, hdigit⟩, hpoint⟩ := hplain
  unfold endsBefore
  split
  · simp [hword]
  · next hkind =>
      have hkinds := hoperand.resolve_left hkind
      simp only [List.mem_cons, List.not_mem_nil, or_false] at hkinds
      rcases hkinds with h | h | h | h | h <;> simp [h, hdigit, hpoint]

/-- A lexeme that starts with an equals sign is a comparison or an assignment. -/
theorem kind_of_equalsSign {cs : List Char} {lexeme : Lexeme}
    (hread : lexeme? ('=' :: cs) = some lexeme) :
    lexeme.kind = .assign ∨ lexeme.kind = .equal := by
  have hmark : mark? ('=' :: cs) = some lexeme := hread
  unfold mark? at hmark
  split at hmark
  all_goals
    cases hmark
    try simp_all

/-- A whole lexeme that is no comparison, assignment or division goes on with no operator. -/
theorem operandFirst_of_kind {lexeme : Lexeme} (hwhole : lexeme.Whole)
    (hkind : lexeme.kind ∉ [.assign, .equal, .slash]) (rest : List Lexeme) :
    OperandFirst (lexeme :: rest) := by
  intro next hnext c hc
  obtain rfl : lexeme = next := by simpa using hnext
  obtain ⟨cs, htext⟩ := List.head?_eq_some_iff.1 hc
  have hread := hwhole.read
  rw [htext] at hread
  constructor
  · rintro rfl
    rcases kind_of_equalsSign hread with h | h
    · exact hkind (by simp [h])
    · exact hkind (by simp [h])
  · intro hslash
    have hlexeme := (lexeme?_start hread).slash hslash
    exact hkind (by simp [hlexeme])

end Lexeme

namespace Atom

/-- An atom ends in front of a mark. -/
theorem endsBefore (atom : Atom) {c : Char} (hmark : c ∈ markChars) : atom.lexeme.endsBefore c := by
  apply Lexeme.endsBefore_mark _ hmark
  rcases atom with _ | _ | _ | (_ | _) | _ <;> simp [lexeme, Identifier.lexeme, TokenKind.isWord]

/-- No atom starts like an operator. -/
theorem operandFirst (atom : Atom) (rest : List Lexeme) :
    Lexeme.OperandFirst (atom.lexeme :: rest) := by
  apply Lexeme.operandFirst_of_kind atom.whole _ rest
  rcases atom with _ | _ | _ | (_ | _) | _ <;> simp [lexeme, Identifier.lexeme]

end Atom

namespace Operator

/-- Every operator is written as one lexeme. -/
theorem whole (operator : Operator) : operator.lexeme.Whole := by
  cases operator <;> exact ⟨by decide, by decide⟩

/-- An operator ends in front of an operand. -/
theorem endsBefore (operator : Operator) {c : Char} (hoperand : c ≠ '=' ∧ c ≠ '/') :
    operator.lexeme.endsBefore c := by
  cases operator <;> simp [lexeme, tokenKind, Lexeme.endsBefore, TokenKind.isWord, hoperand]

end Operator

namespace Tree

open Lexeme (Apart MarkFirst OperandFirst)

/-- Lexemes that can stand in front of every mark, and behind every operator. -/
def Stands (lexemes : List Lexeme) : Prop :=
  ∀ rest, Apart rest → MarkFirst rest → Apart (lexemes ++ rest) ∧ OperandFirst (lexemes ++ rest)

/-- A bracket or a comma stands in front of everything. -/
theorem apart_bracket (lexeme : Lexeme)
    (hlexeme : lexeme ∈ [.openParen, .closeParen, .openBracket, .closeBracket, .comma])
    {rest : List Lexeme} (hrest : Apart rest) :
    Apart (lexeme :: rest) ∧ MarkFirst (lexeme :: rest) ∧ OperandFirst (lexeme :: rest) := by
  have hbracket : lexeme.Whole ∧ (∀ c, lexeme.endsBefore c) ∧
      ∀ c ∈ lexeme.text.head?, c ∈ markChars ∧ c ≠ '=' ∧ c ≠ '/' := by
    simp only [List.mem_cons, List.not_mem_nil, or_false] at hlexeme
    rcases hlexeme with rfl | rfl | rfl | rfl | rfl <;>
      exact ⟨⟨by decide, by decide⟩, fun _ => rfl, by rintro c ⟨⟩; decide⟩
  obtain ⟨hwhole, hends, hfirst⟩ := hbracket
  refine ⟨⟨hwhole, fun _ _ c _ => hends c, hrest⟩, ?_, ?_⟩
  · intro next hnext c hc
    obtain rfl : lexeme = next := by simpa using hnext
    exact (hfirst c hc).1
  · intro next hnext c hc
    obtain rfl : lexeme = next := by simpa using hnext
    exact (hfirst c hc).2

/-- An operator stands in front of every operand. -/
theorem apart_operator (operator : Operator) {rest : List Lexeme} (hrest : Apart rest)
    (hoperand : OperandFirst rest) :
    Apart (operator.lexeme :: rest) ∧ MarkFirst (operator.lexeme :: rest) := by
  refine ⟨⟨operator.whole, ?_, hrest⟩, ?_⟩
  · intro next hnext c hc
    exact operator.endsBefore (hoperand next hnext c hc)
  · intro next hnext c hc
    obtain rfl : operator.lexeme = next := by simpa using hnext
    cases operator <;> cases hc <;> decide

/-- The sign of an assignment stands in front of every operand. -/
theorem apart_assign {rest : List Lexeme} (hrest : Apart rest) (hoperand : OperandFirst rest) :
    Apart (.assign :: rest) ∧ MarkFirst (.assign :: rest) := by
  refine ⟨⟨⟨by decide, by decide⟩, ?_, hrest⟩, ?_⟩
  · intro next hnext c hc
    simpa [Lexeme.endsBefore, Lexeme.assign, TokenKind.isWord] using (hoperand next hnext c hc).1
  · intro next hnext c hc
    obtain rfl : Lexeme.assign = next := by simpa using hnext
    cases hc
    decide

/-- Parentheses stand wherever what they enclose stands. -/
theorem Stands.enclose {lexemes : List Lexeme} (h : Stands lexemes) (needed : Bool) :
    Stands (enclose needed lexemes) := by
  cases needed with
  | false => exact h
  | true =>
      intro rest hrest _
      obtain ⟨hclose, hmark, -⟩ := apart_bracket .closeParen (by simp) hrest
      obtain ⟨hinner, -⟩ := h _ hclose hmark
      obtain ⟨hopen, -, hoperand⟩ := apart_bracket .openParen (by simp) hinner
      simp only [Tree.enclose, if_true, List.cons_append, List.append_assoc, List.nil_append]
      exact ⟨hopen, hoperand⟩

mutual

-- Each case goes from right to left: what follows a lexeme has to be known before the lexeme.
/-- A printed tree stands in front of every mark, and behind every operator. -/
theorem stands : ∀ tree : Tree, Stands tree.lexemes
  | leaf atom => by
      intro rest hrest hmark
      refine ⟨⟨atom.whole, ?_, hrest⟩, atom.operandFirst rest⟩
      intro next hnext c hc
      exact atom.endsBefore (hmark next hnext c hc)
  | array elements => by
      intro rest hrest _
      obtain ⟨hclose, hmark, -⟩ := apart_bracket .closeBracket (by simp) hrest
      have hitems := apart_lexemesOfAll elements hclose hmark
      obtain ⟨hopen, -, hoperand⟩ := apart_bracket .openBracket (by simp) hitems
      simp only [lexemes, List.cons_append, List.append_assoc, List.nil_append]
      exact ⟨hopen, hoperand⟩
  | call callee arguments => by
      intro rest hrest _
      obtain ⟨hclose, hmark, -⟩ := apart_bracket .closeParen (by simp) hrest
      have hitems := apart_lexemesOfAll arguments hclose hmark
      obtain ⟨hopen, hafter, -⟩ := apart_bracket .openParen (by simp) hitems
      simp only [lexemes, List.cons_append, List.append_assoc, List.nil_append]
      have hcallee := (Atom.name callee).operandFirst
      refine ⟨⟨callee.whole, ?_, hopen⟩, hcallee _⟩
      intro next hnext c hc
      exact (Atom.name callee).endsBefore (hafter next hnext c hc)
  | subscript base index => by
      intro rest hrest _
      obtain ⟨hclose, hmark, -⟩ := apart_bracket .closeBracket (by simp) hrest
      obtain ⟨hindex, -⟩ := stands index _ hclose hmark
      obtain ⟨hopen, hafter, -⟩ := apart_bracket .openBracket (by simp) hindex
      have hbase := (stands base).enclose (base.needsParens inFront) _ hopen hafter
      simpa only [lexemes, List.cons_append, List.append_assoc, List.nil_append] using hbase
  | binary operator left right => by
      intro rest hrest hmark
      obtain ⟨hright, hoperand⟩ :=
        (stands right).enclose (right.needsParens (onRight operator)) _ hrest hmark
      obtain ⟨hoperator, hafter⟩ := apart_operator operator hright hoperand
      have hleft := (stands left).enclose (left.needsParens (onLeft operator)) _ hoperator hafter
      simpa only [lexemes, List.cons_append, List.append_assoc] using hleft
  | assign target value => by
      intro rest hrest hmark
      obtain ⟨hvalue, hoperand⟩ := stands value _ hrest hmark
      obtain ⟨hassign, hafter⟩ := apart_assign hvalue hoperand
      have htarget := (stands target).enclose (target.needsParens inFront) _ hassign hafter
      simpa only [lexemes, List.cons_append, List.append_assoc] using htarget

/-- Printed trees with commas between them stand in front of every mark. -/
theorem apart_lexemesOfAll : ∀ (trees : List Tree) {rest : List Lexeme}, Apart rest →
    MarkFirst rest → Apart (lexemesOfAll trees ++ rest)
  | [], _, hrest, _ => hrest
  | [tree], _, hrest, hmark => (stands tree _ hrest hmark).1
  | tree :: next :: others, rest, hrest, hmark => by
      have hothers := apart_lexemesOfAll (next :: others) hrest hmark
      obtain ⟨hcomma, hafter, -⟩ := apart_bracket .comma (by simp) hothers
      have htree := (stands tree _ hcomma hafter).1
      simpa only [lexemesOfAll, List.append_assoc, List.cons_append] using htree

end

/-- A printed tree can be written with any blanks. -/
theorem separates_lexemes (tree : Tree) (layout : Layout) : layout.Separates tree.lexemes := by
  have happart := (stands tree [] trivial (by intro next hnext; cases hnext)).1
  rw [List.append_nil] at happart
  exact Layout.separates_of_apart happart layout

end Tree

end Quill
