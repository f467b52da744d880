import Quill.Proofs.Listing.Words
import Quill.Proofs.Parsing.Course

/-!
# What an action of the parser tells

A reader takes tokens and gives a tree.  If nothing is recorded, the words of the tree are those of
the tokens that were taken.  `Parse.Tells` states this of any action, with the words of what was
read before it: together with the words still to be read they are the same before and after.  This
module gives one rule for each way of putting actions together.
-/

namespace Quill

namespace Token

/-- The words of a single token, at most one. -/
def said (token : Token) : List Word :=
  Word.spoken token.word?.toList

theorem said_of_kind {token : Token} {kind : TokenKind} (h : token.kind = kind) :
    token.said = Word.spoken (Word.of? kind token.value).toList := by
  rw [said, word?, h]

end Token

namespace Parser

variable {parser : Parser}

/-- Nothing was recorded, and the final token stands for the end. -/
structure Clear (parser : Parser) : Prop where
  recorded : parser.recorded = []
  ends : parser.final.token.kind = .endOfInput

/-- The words that are still to be read. -/
def awaited (parser : Parser) : List Word :=
  Word.spoken (parser.ahead.filterMap (·.token.word?))

theorem Clear.of_advance (h : parser.advance.Clear) : parser.Clear :=
  ⟨(List.append_eq_nil_iff.1 h.recorded).1, h.ends⟩

/-- A token that is taken says its word; at the end nothing is said. -/
theorem awaited_eq (h : parser.final.token.kind = .endOfInput) :
    parser.awaited = parser.current.said ++ parser.advance.awaited := by
  rw [awaited, awaited, current, advance]
  cases parser.ahead with
  | nil => simp [Token.said_of_kind h, Word.of?]
  | cons scan others =>
      simp only [List.head?_cons, Option.getD_some, List.tail_cons, List.filterMap_cons]
      cases hword : scan.token.word? with
      | none => simp [Token.said, hword]
      | some word =>
          rw [Token.said, hword]
          exact Word.spoken_append [word] _

end Parser

namespace Parse

variable {α β : Type} {parser : Parser} {before : List Word} {said : α → List Word}

/-- If the action succeeds and nothing is recorded, the words before it and those still to be read
are the words of its result and those to be read afterwards. -/
def Tells (parser : Parser) (action : Parse α) (before : List Word) (said : α → List Word) : Prop :=
  ∀ result next, action parser = .ok result next → next.Clear →
    parser.Clear ∧ before ++ parser.awaited = said result ++ next.awaited

namespace Tells

theorem pure {result : α} (h : said result = before) :
    Tells parser (Pure.pure result) before said := by
  rintro _ _ ⟨⟩ hclear
  exact ⟨hclear, by rw [h]⟩

theorem throw {diagnostic : Diagnostic} :
    Tells parser (MonadExcept.throw diagnostic) before said := by
  rintro _ _ ⟨⟩

theorem unexpected : Tells parser Parse.unexpected before said := by
  rintro _ _ ⟨⟩

/-- One action after another. -/
theorem bind {first : Parse α} {more : α → Parse β} {after : β → List Word}
    (h : Tells parser first before said)
    (hmore : ∀ result next, Tells next (more result) (said result) after) :
    Tells parser (first >>= more) before after := by
  intro result last hresult hclear
  change EStateM.bind first more parser = _ at hresult
  rw [EStateM.bind] at hresult
  split at hresult
  · next middle next hfirst =>
      obtain ⟨hnext, hrest⟩ := hmore middle next result last hresult hclear
      obtain ⟨hparser, htaken⟩ := h middle next hfirst hnext
      exact ⟨hparser, htaken.trans hrest⟩
  · cases hresult

/-- One of two actions, and another one after it. -/
theorem either {c : Prop} [Decidable c] {first second : Parse α} {more : α → Parse β}
    (said : α → List Word) {after : β → List Word} (hfirst : c → Tells parser first before said)
    (hsecond : ¬ c → Tells parser second before said)
    (hmore : ∀ result next, Tells next (more result) (said result) after) :
    Tells parser (if c then first >>= more else second >>= more) before after := by
  split
  · next hc => exact (hfirst hc).bind hmore
  · next hc => exact (hsecond hc).bind hmore

/-- A look at the token in front. -/
theorem current {more : Token → Parse α} (h : Tells parser (more parser.current) before said) :
    Tells parser (Parse.current >>= more) before said := h

/-- A look at the kind of the token in front. -/
theorem currentKind {more : TokenKind → Parse α}
    (h : Tells parser (more parser.current.kind) before said) :
    Tells parser (Parse.currentKind >>= more) before said := h

theorem sourceNumber {more : Nat → Parse α} (h : Tells parser (more parser.source) before said) :
    Tells parser (Parse.sourceNumber >>= more) before said := h

theorem bounded {family : Nat → Parse α}
    (h : ∀ bound, Tells parser (family bound) before said) :
    Tells parser (Parse.bounded family) before said := h _

/-- The token in front is taken, and its word is said. -/
theorem advance {more : Token → Parse α}
    (hmore : ∀ next, Tells next (more parser.current) (before ++ parser.current.said) said) :
    Tells parser (Parse.advance >>= more) before said := by
  intro result last hresult hclear
  obtain ⟨hnext, hrest⟩ := hmore parser.advance result last hresult hclear
  refine ⟨hnext.of_advance, ?_⟩
  rw [Parser.awaited_eq hnext.of_advance.ends, ← List.append_assoc]
  exact hrest

/-- A token whose kind is known is taken. -/
theorem take {more : Token → Parse α} {kind : TokenKind} (hkind : parser.current.kind = kind)
    (hmore : ∀ token next, Tells next (more token)
      (before ++ Word.spoken (Word.of? kind token.value).toList) said) :
    Tells parser (Parse.advance >>= more) before said := by
  apply advance
  rw [Token.said_of_kind hkind]
  exact hmore parser.current

theorem expect {more : Token → Parse α} {kind : TokenKind}
    (hmore : ∀ token next, Tells next (more token)
      (before ++ Word.spoken (Word.of? kind token.value).toList) said) :
    Tells parser (Parse.expect kind >>= more) before said := by
  intro result last hresult
  change EStateM.bind (Parse.expect kind) more parser = _ at hresult
  rw [EStateM.bind, Parse.expect] at hresult
  by_cases hkind : (parser.current.kind == kind) = true
  · rw [if_pos hkind] at hresult
    exact take (beq_iff_eq.1 hkind) hmore result last hresult
  · rw [if_neg hkind] at hresult
    cases hresult

theorem accept {more : Bool → Parse α} {kind : TokenKind}
    (hyes : ∀ text next, Tells next (more true)
      (before ++ Word.spoken (Word.of? kind text).toList) said)
    (hno : Tells parser (more false) before said) :
    Tells parser (Parse.accept kind >>= more) before said := by
  intro result last hresult
  change EStateM.bind (Parse.accept kind) more parser = _ at hresult
  rw [EStateM.bind, Parse.accept] at hresult
  by_cases hkind : (parser.current.kind == kind) = true
  · rw [if_pos hkind] at hresult
    have hstep : Tells parser (Parse.advance >>= fun _ => more true) before said :=
      take (beq_iff_eq.1 hkind) fun token => hyes token.value
    exact hstep result last hresult
  · rw [if_neg hkind] at hresult
    exact hno result last hresult

end Tells

end Parse

end Quill
