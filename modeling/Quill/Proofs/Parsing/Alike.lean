import Mathlib.Logic.Function.Iterate
import Quill.Proofs.Parsing.Course

/-!
# Actions that are alike

Two actions are alike at a state if they do the same there, go along the course of the parser and
end with a good result or with a problem of parsing.  An action that is alike to itself is simply
well behaved.  The two sides come into play where a recursion is cut off at a bound: with two
different bounds, and whatever is put in the place of the recursion where they are used up, the
actions are alike as long as both bounds exceed the number of tokens left (`Alike.of_step`).
-/

namespace Quill.Parse

variable {α β : Type} {parser : Parser}

/-- How an action may end that begins at a state. -/
def EndsWell (parser : Parser) (good : α → Parser → Prop) :
    EStateM.Result Diagnostic Parser α → Prop
  | .ok result next => parser.Reaches next ∧ good result next
  | .error diagnostic next => parser.Reaches next ∧ diagnostic.phase = .parsing

/-- Two actions do the same at a state, and do it well. -/
structure Alike (first second : Parse α) (parser : Parser) (good : α → Parser → Prop) : Prop where
  same : first parser = second parser
  ends : EndsWell parser good (first parser)

/-- At least one token was taken. -/
abbrev Takes {α : Type} (parser : Parser) : α → Parser → Prop :=
  fun _ next => next.remaining < parser.remaining

/-- Nothing more is asked of how the action ends. -/
abbrev Anyhow {α : Type} (_ : Parser) : α → Parser → Prop :=
  fun _ _ => True

namespace Alike

/-- What is good at the end may be put in a weaker way. -/
theorem mono {first second : Parse α} {good fine : α → Parser → Prop}
    (h : Alike first second parser good)
    (hfine : ∀ result next, next.remaining ≤ parser.remaining → good result next →
      fine result next) : Alike first second parser fine where
  same := h.same
  ends := by
    have hends := h.ends
    cases heq : first parser with
    | ok result next =>
        rw [heq] at hends
        exact ⟨hends.1, hfine result next hends.1.remaining_le hends.2⟩
    | error diagnostic next =>
        rw [heq] at hends
        exact hends

/-- Nothing is done. -/
theorem pure {result : α} {good : α → Parser → Prop} (hgood : good result parser) :
    Alike (Pure.pure result) (Pure.pure result) parser good :=
  ⟨rfl, .refl, hgood⟩

/-- A problem of parsing. -/
theorem throw {diagnostic : Diagnostic} {good : α → Parser → Prop}
    (hphase : diagnostic.phase = .parsing) :
    Alike (MonadExcept.throw diagnostic) (MonadExcept.throw diagnostic) parser good :=
  ⟨rfl, .refl, hphase⟩

/-- A complaint about the token in front. -/
theorem unexpected {good : α → Parser → Prop} :
    Alike Parse.unexpected Parse.unexpected parser good :=
  ⟨rfl, .refl, rfl⟩

/-- One action after another. -/
theorem bind {first second : Parse α} {more others : α → Parse β} {good : α → Parser → Prop}
    {fine : β → Parser → Prop} (hsound : parser.Sound) (h : Alike first second parser good)
    (hmore : ∀ result next, next.Sound → next.remaining ≤ parser.remaining → good result next →
      Alike (more result) (others result) next fine) :
    Alike (first >>= more) (second >>= others) parser fine := by
  have hsame := h.same
  have hends := h.ends
  cases heq : first parser with
  | error diagnostic next =>
      rw [heq] at hsame hends
      have hfirst : (first >>= more) parser = .error diagnostic next := by
        change EStateM.bind first more parser = _
        rw [EStateM.bind, heq]
      have hsecond : (second >>= others) parser = .error diagnostic next := by
        change EStateM.bind second others parser = _
        rw [EStateM.bind, ← hsame]
      constructor
      · rw [hfirst, hsecond]
      · rw [hfirst]
        exact hends
  | ok result next =>
      rw [heq] at hsame hends
      obtain ⟨hreaches, hgood⟩ := hends
      have hfirst : (first >>= more) parser = more result next := by
        change EStateM.bind first more parser = _
        rw [EStateM.bind, heq]
      have hsecond : (second >>= others) parser = others result next := by
        change EStateM.bind second others parser = _
        rw [EStateM.bind, ← hsame]
      have hrest := hmore result next (hreaches.sound hsound) hreaches.remaining_le hgood
      constructor
      · rw [hfirst, hsecond, hrest.same]
      · rw [hfirst]
        have hlast := hrest.ends
        cases hnext : more result next with
        | ok final last =>
            rw [hnext] at hlast
            exact ⟨hreaches.trans hlast.1, hlast.2⟩
        | error diagnostic last =>
            rw [hnext] at hlast
            exact ⟨hreaches.trans hlast.1, hlast.2⟩

/-- One of two actions, and another one after it. -/
theorem either {c : Prop} [Decidable c] {first second first' second' : Parse α}
    {more others : α → Parse β} (good : α → Parser → Prop) {fine : β → Parser → Prop}
    (hsound : parser.Sound) (hfirst : c → Alike first first' parser good)
    (hsecond : ¬ c → Alike second second' parser good)
    (hmore : ∀ result next, next.Sound → next.remaining ≤ parser.remaining → good result next →
      Alike (more result) (others result) next fine) :
    Alike (if c then first >>= more else second >>= more)
      (if c then first' >>= others else second' >>= others) parser fine := by
  split
  · next hc => exact .bind hsound (hfirst hc) hmore
  · next hc => exact .bind hsound (hsecond hc) hmore

/-- Looking at the token in front. -/
theorem current : Alike Parse.current Parse.current parser fun token next =>
    token = parser.current ∧ parser = next :=
  ⟨rfl, .refl, rfl, rfl⟩

/-- Looking at the kind of the token in front. -/
theorem currentKind : Alike Parse.currentKind Parse.currentKind parser fun kind next =>
    kind = parser.current.kind ∧ parser = next :=
  ⟨rfl, .refl, rfl, rfl⟩

/-- Asking for the number of the source. -/
theorem sourceNumber : Alike Parse.sourceNumber Parse.sourceNumber parser fun _ next =>
    parser = next :=
  ⟨rfl, .refl, rfl⟩

/-- Taking a token. -/
theorem advance (hsound : parser.Sound) (hmore : parser.atEnd = false) :
    Alike Parse.advance Parse.advance parser (Takes parser) := by
  have hpos := hsound.remaining_pos hmore
  refine ⟨rfl, .take .refl hmore, ?_⟩
  change parser.advance.remaining < parser.remaining
  rw [Parser.remaining_advance]
  omega

/-- Taking a token of a given kind. -/
theorem expect {kind : TokenKind} (hsound : parser.Sound) (hkind : kind ≠ .endOfInput) :
    Alike (Parse.expect kind) (Parse.expect kind) parser (Takes parser) := by
  refine ⟨rfl, ?_⟩
  rw [Parse.expect]
  split
  · next hfront =>
      have hmore := Parser.atEnd_of_kind (beq_iff_eq.1 hfront) hkind
      exact (advance hsound hmore).ends
  · exact unexpected.ends

/-- Taking a token that may stand there. -/
theorem accept {kind : TokenKind} (hsound : parser.Sound) (hkind : kind ≠ .endOfInput) :
    Alike (Parse.accept kind) (Parse.accept kind) parser fun taken next =>
      taken = true → next.remaining < parser.remaining := by
  refine ⟨rfl, ?_⟩
  rw [Parse.accept]
  split
  · next hfront =>
      have hmore := Parser.atEnd_of_kind (beq_iff_eq.1 hfront) hkind
      have htakes := (advance hsound hmore).ends.2
      exact ⟨.take .refl hmore, fun _ => htakes⟩
  · exact ⟨.refl, fun h => nomatch h⟩

/-- Actions that are bounded by the number of tokens left. -/
theorem bounded {first second : Nat → Parse α} {good : α → Parser → Prop}
    (h : Alike (first (parser.remaining + 1)) (second (parser.remaining + 1)) parser good) :
    Alike (Parse.bounded first) (Parse.bounded second) parser good :=
  ⟨h.same, h.ends⟩

end Alike

/-! ### Recursions that are cut off -/

/-- The actions are those of a recursion that is cut off after a number of steps. -/
def Unrolls {γ : Type} (step : γ → γ) (family : Nat → γ) : Prop :=
  ∀ bound, family (bound + 1) = step (family bound)

/-- Anything can stand where a recursion is cut off. -/
theorem unrolls_iterate {γ : Type} (step : γ → γ) (last : γ) :
    Unrolls step fun bound => step^[bound] last :=
  fun bound => Function.iterate_succ_apply' step bound last

namespace Alike

/-- Two recursions that are cut off are alike at a state if both bounds exceed the number of tokens
left there.  It is enough that a step is alike where the rest of the recursion is alike at all
states with fewer tokens left. -/
theorem of_step {ι : Type} {step other : (ι → Parse α) → ι → Parse α}
    {first second : Nat → ι → Parse α} {good : Parser → α → Parser → Prop} {limit : Nat}
    (hstep : ∀ rest rest' parser, parser.Sound → parser.remaining < limit →
      (∀ i next, next.Sound → next.remaining < parser.remaining →
        Alike (rest i) (rest' i) next (good next)) →
      ∀ i, Alike (step rest i) (other rest' i) parser (good parser))
    (hfirst : Unrolls step first) (hsecond : Unrolls other second) {bound bound' : Nat}
    (hsound : parser.Sound) (hlimit : parser.remaining < limit)
    (hbound : parser.remaining < bound) (hbound' : parser.remaining < bound') (i : ι) :
    Alike (first bound i) (second bound' i) parser (good parser) := by
  induction bound generalizing bound' parser i with
  | zero => omega
  | succ bound ih =>
      cases bound' with
      | zero => omega
      | succ bound' =>
          rw [hfirst, hsecond]
          apply hstep _ _ parser hsound hlimit
          intro i next hnext hfewer
          exact ih hnext (by omega) (by omega) (by omega) i

/-- The same for a recursion without an argument. -/
theorem of_round {step other : Parse α → Parse α} {first second : Nat → Parse α}
    {good : Parser → α → Parser → Prop} {limit : Nat}
    (hstep : ∀ rest rest' parser, parser.Sound → parser.remaining < limit →
      (∀ next, next.Sound → next.remaining < parser.remaining →
        Alike rest rest' next (good next)) →
      Alike (step rest) (other rest') parser (good parser))
    (hfirst : Unrolls step first) (hsecond : Unrolls other second) {bound bound' : Nat}
    (hsound : parser.Sound) (hlimit : parser.remaining < limit)
    (hbound : parser.remaining < bound) (hbound' : parser.remaining < bound') :
    Alike (first bound) (second bound') parser (good parser) := by
  refine @of_step α parser Unit (fun rest _ => step (rest ())) (fun rest _ => other (rest ()))
    (fun bound _ => first bound) (fun bound _ => second bound) good limit ?_ ?_ ?_ bound bound'
    hsound hlimit hbound hbound' ()
  · intro rest rest' parser hparser hless hrest _
    exact hstep (rest ()) (rest' ()) parser hparser hless (hrest ())
  · exact fun bound => funext fun _ => hfirst bound
  · exact fun bound => funext fun _ => hsecond bound

end Alike

end Quill.Parse
