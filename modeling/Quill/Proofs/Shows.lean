import Quill.Parser.Expr
import Quill.Proofs.Layout

/-!
# What a parser has in front of it

`Shows` says that the tokens in front of a parser are those of a sequence of lexemes, that none of
them brings a problem and that no problem was found so far.  `Reads` says that an action gives a
good result and leaves a rest of the sequence in front of the parser.
-/

namespace Quill

/-- The kind of token with which a sequence of lexemes starts. -/
def Lexeme.frontKind : List Lexeme → TokenKind
  | [] => .endOfInput
  | lexeme :: _ => lexeme.kind

open Lexeme (frontKind)

/-- A parser without problems that has the lexemes of a sequence in front of it. -/
structure Parser.Shows (parser : Parser) (lexemes : List Lexeme) : Prop where
  contents : parser.ahead.map (·.token.content) = lexemes.map (·.content)
  quiet : ∀ scan ∈ parser.ahead, scan.problems = []
  ends : parser.final.token.kind = .endOfInput
  quietEnd : parser.final.problems = []
  clean : parser.recorded = []

namespace Parser.Shows

variable {parser : Parser} {lexeme : Lexeme} {rest lexemes : List Lexeme}

/-- A parser shows a token for each lexeme. -/
theorem remaining (h : parser.Shows lexemes) : parser.remaining = lexemes.length := by
  have hlength := congrArg List.length h.contents
  rwa [List.length_map, List.length_map] at hlength

/-- The token in front is that of the first lexeme. -/
theorem current (h : parser.Shows (lexeme :: rest)) : parser.current.content = lexeme.content := by
  have hcontents := h.contents
  cases hahead : parser.ahead with
  | nil =>
      rw [hahead] at hcontents
      cases hcontents
  | cons scan others =>
      rw [hahead] at hcontents
      have hhead := (List.cons.inj hcontents).1
      rw [Parser.current, hahead]
      exact hhead

/-- The kind of the token in front is the one with which the sequence starts. -/
theorem currentKind (h : parser.Shows lexemes) : parser.current.kind = frontKind lexemes := by
  cases lexemes with
  | nil =>
      have hahead : parser.ahead = [] := List.map_eq_nil_iff.1 h.contents
      rw [Parser.current, hahead]
      exact h.ends
  | cons lexeme rest => exact congrArg Prod.fst h.current

/-- No problem comes into view when a token is taken. -/
theorem nextProblems (h : parser.Shows lexemes) : parser.nextProblems = [] := by
  rw [Parser.nextProblems]
  split
  · next third _ hahead => exact h.quiet third (by simp [hahead])
  · exact h.quietEnd
  · rfl

/-- Taking a token leaves the lexemes after the first one. -/
theorem advance (h : parser.Shows (lexeme :: rest)) : parser.advance.Shows rest where
  contents := by
    have htail := congrArg List.tail h.contents
    rwa [List.map_cons, List.tail_cons, ← List.map_tail] at htail
  quiet := fun scan hscan => h.quiet scan (List.mem_of_mem_tail hscan)
  ends := h.ends
  quietEnd := h.quietEnd
  clean := by
    rw [Parser.advance, h.nextProblems, h.clean]
    rfl

end Parser.Shows

/-- The start of a text shows the lexemes that the text spells. -/
theorem Parser.shows_start {stream : TokenStream} {lexemes : List Lexeme}
    (h : stream.Spells lexemes) (source : Nat) : (Parser.start stream source).Shows lexemes where
  contents := h.contents
  quiet := h.quiet
  ends := h.ends
  quietEnd := h.quietEnd
  clean := by
    rw [Parser.start]
    simp only
    cases hscans : stream.scans with
    | nil => exact h.quietEnd
    | cons first others =>
        have hfirst := h.quiet first (by simp [hscans])
        cases others with
        | nil => rw [openingProblems, hfirst, h.quietEnd]; rfl
        | cons second others =>
            have hsecond := h.quiet second (by simp [hscans])
            rw [openingProblems, hfirst, hsecond]
            rfl

namespace Parse

variable {α β : Type} {parser : Parser} {lexeme : Lexeme} {rest : List Lexeme}

/-- An action that gives a good result and leaves `rest` in front of the parser. -/
def Reads (action : Parse α) (parser : Parser) (good : α → Prop) (rest : List Lexeme) : Prop :=
  ∃ result next, action parser = .ok result next ∧ good result ∧ next.Shows rest

/-- An action goes on from the result of the one before. -/
theorem bind_of_ok {first : Parse α} {second : α → Parse β} {result : α} {next : Parser}
    (h : first parser = .ok result next) : (first >>= second) parser = second result next := by
  show EStateM.bind first second parser = second result next
  rw [EStateM.bind, h]

/-- Nothing is read, and the result is given. -/
theorem Reads.pure {result : α} {good : α → Prop} (hgood : good result)
    (hshows : parser.Shows rest) : Reads (Pure.pure result) parser good rest :=
  ⟨result, parser, rfl, hgood, hshows⟩

/-- One action after another. -/
theorem Reads.bind {first : Parse α} {second : α → Parse β} {good : α → Prop} {fine : β → Prop}
    {between : List Lexeme} (hfirst : Reads first parser good between)
    (hsecond : ∀ result next, good result → next.Shows between →
      Reads (second result) next fine rest) :
    Reads (first >>= second) parser fine rest := by
  obtain ⟨result, next, heq, hgood, hshows⟩ := hfirst
  obtain ⟨last, final, hlast, hfine⟩ := hsecond result next hgood hshows
  exact ⟨last, final, by rw [bind_of_ok heq, hlast], hfine⟩

/-- Looking at the token in front. -/
theorem Reads.currentKind {lexemes : List Lexeme} (h : parser.Shows lexemes) :
    Reads currentKind parser (fun kind => kind = frontKind lexemes) lexemes :=
  ⟨parser.current.kind, parser, rfl, h.currentKind, h⟩

/-- Taking a token. -/
theorem Reads.advance (h : parser.Shows (lexeme :: rest)) :
    Reads advance parser (fun token => token.content = lexeme.content) rest :=
  ⟨parser.current, parser.advance, rfl, h.current, h.advance⟩

/-- Taking a token that is expected. -/
theorem Reads.expect (h : parser.Shows (lexeme :: rest)) :
    Reads (expect lexeme.kind) parser (fun token => token.content = lexeme.content) rest := by
  have hkind := h.currentKind
  refine ⟨parser.current, parser.advance, ?_, h.current, h.advance⟩
  rw [Parse.expect, hkind, frontKind]
  simp [Parse.advance]

/-- Taking a token that may stand there, and does. -/
theorem Reads.accept (h : parser.Shows (lexeme :: rest)) :
    Reads (accept lexeme.kind) parser (fun taken => taken = true) rest := by
  have hkind := h.currentKind
  refine ⟨true, parser.advance, ?_, rfl, h.advance⟩
  rw [Parse.accept, hkind, frontKind]
  simp

/-- Not taking a token that may stand there, but does not. -/
theorem Reads.decline {kind : TokenKind} (h : parser.Shows rest) (hkind : frontKind rest ≠ kind) :
    Reads (Parse.accept kind) parser (fun taken => taken = false) rest := by
  refine ⟨false, parser, ?_, rfl, h⟩
  rw [Parse.accept, h.currentKind]
  simp [hkind]

/-- An action that is bounded by the number of tokens left. -/
theorem Reads.bounded {action : Nat → Parse α} {good : α → Prop} {lexemes : List Lexeme}
    (hshows : parser.Shows lexemes) (h : Reads (action (lexemes.length + 1)) parser good rest) :
    Reads (bounded action) parser good rest := by
  obtain ⟨result, next, heq, hnext⟩ := h
  rw [← hshows.remaining] at heq
  exact ⟨result, next, heq, hnext⟩

end Parse

end Quill
