import Quill.Proofs.Tandem.Seams

/-!
# Where a reader stops

Nothing marks the end of a statement: it is over where the next token cannot go on with it.  A text
that is read without problems ends where its tokens end; in front of another text it has to end at
the same place.

Before the end of the first text a reader cannot tell whether the text stands alone; that is the
walk over the grammar in tandem (`Sequel.tandem`).  What is left are the readers that come to the
end of the first text and succeed.  `Sequel.Carries` says that such a reader stops in front of the
second text in the same way, and `Sequel.Stuck` that a reader cannot succeed if it begins at the
end.  A reader made of several ones is carried if the last one is carried, and each of the others,
where it comes to the end, leaves the rest stuck.
-/

namespace Quill

/-- A token that goes on with no expression and no branch. -/
structure Grammar.Separates (grammar : Grammar) (kind : TokenKind) : Prop where
  tail : grammar.tail kind = none
  other : kind ≠ .elseWord

/-- Two texts without problems of scanning, where the second one begins with a token that separates
it from the first one. -/
structure Sequel (grammar : Grammar) (bytes : Nat) (front text joined : TokenStream) : Prop extends
    Seam bytes front text joined where
  quietFront : front.Quiet
  endsFront : front.Ends
  stops : grammar.StopsAtEnd
  separates : grammar.Separates (text.tokenAt 0).kind

/-- What was recorded is not lost when a statement is given up. -/
theorem Parser.recorded_recover_record_ne_nil (before : Nat) (parser : Parser)
    (diagnostic : Diagnostic) : ((parser.record diagnostic).recover before).recorded ≠ [] := by
  intro hnone
  have hfront := recorded_isPrefix_recover before (parser.record diagnostic)
  rw [hnone, List.prefix_nil] at hfront
  exact List.cons_ne_nil _ _ (List.append_eq_nil_iff.1 hfront).2

/-- A run that has recorded a problem. -/
def Astray.noted : Astray where
  lost parser := parser.recorded ≠ []
  blamed _ := True
  advance h := List.append_ne_nil_of_left_ne_nil h _
  blames _ _ := trivial
  recover before _ _ := Parser.recorded_recover_record_ne_nil before _ _

/-- An action fails, or something is recorded when it is done. -/
def Parse.Fails {α : Type} : EStateM.Result Diagnostic Parser α → Prop
  | .ok _ next => next.recorded ≠ []
  | .error _ _ => True

theorem Astray.Ends.fails {α : Type} {ended : EStateM.Result Diagnostic Parser α}
    (h : Astray.noted.Ends ended) : Parse.Fails ended := by
  cases ended with
  | ok => exact h
  | error => trivial

/-! ### What the end is taken for -/

namespace Parse

variable {token : Token} (hend : token.kind = .endOfInput)

include hend

theorem judgeKind_of_end {kind : TokenKind} (hkind : kind ≠ .endOfInput) :
    ∃ problem, (judgeKind kind token).result = .error problem := by
  refine ⟨.unexpectedToken token.description, ?_⟩
  rw [judgeKind, hend, if_neg (by simpa using hkind.symm)]

theorem judgeAtom_of_end : ∃ problem, (judgeAtom token).result = .error problem := by
  refine ⟨.unexpectedToken token.description, ?_⟩
  rw [judgeAtom, Expr.ofToken, hend]
  rfl

theorem judgeOperand_of_end {grammar : Grammar} (hgrammar : grammar.StopsAtEnd) :
    ∃ problem, (judgeOperand grammar token).result = .error problem := by
  refine ⟨.expectedExpression, ?_⟩
  rw [judgeOperand, hend, hgrammar.operand]

end Parse

/-- How a run over the first text alone leaves the run over both. -/
inductive Departure
  | ended
  | noted

namespace Sequel

open Parse Pairing

variable {grammar : Grammar} {bytes : Nat} {front text joined : TokenStream}
  (h : Sequel grammar bytes front text joined) {α β : Type}

/-- The first text alone and in front of the second one is read in lockstep, until the text alone is
at its end or something is recorded. -/
def tandem : Tandem ⟨.still, .still⟩ where
  Mark := Departure
  left
    | .ended => .ended front.final
    | .noted => .noted
  right _ := .anywhere
  alone _ := rfl
  abreast parser parser' :=
    Parser.Lockstep front joined parser parser' ∧ parser.consumed ≤ front.scans.length
  same := Eq
  sound habreast := ⟨habreast.1.on.sound h.endsFront, habreast.1.on'.sound h.ends⟩
  source habreast := habreast.1.source
  look habreast := by
    rcases habreast.1.look h.toSeam h.quietFront with ⟨hplace, hmatched, hnext, hsame⟩ | ⟨-, hend⟩
    · exact .inl ⟨hmatched, ⟨hnext, hplace⟩, hsame⟩
    · exact .inr ⟨.ended, hend, trivial⟩
  recover _ _ _ _ := .inr ⟨.noted, Parser.recorded_recover_record_ne_nil _ _ _, trivial⟩

/-- The two runs see the same token, or the one is at its end and the other one at the seam. -/
theorem look {parser parser' : Parser} (habreast : h.tandem.abreast parser parser') :
    (Matched ⟨.still, .still⟩ parser.current parser'.current ∧
      h.tandem.abreast parser.advance parser'.advance) ∨
    (parser.On ⟨[], front.final⟩ ∧ parser'.current.kind = (text.tokenAt 0).kind) := by
  obtain ⟨hlockstep, hle⟩ := habreast
  rcases hlockstep.look h.toSeam h.quietFront with ⟨hplace, hmatched, hnext, -⟩ | ⟨hge, hend⟩
  · exact .inl ⟨hmatched, hnext, hplace⟩
  · right
    have hplace : parser'.consumed = 0 + front.scans.length := by
      have hsame := hlockstep.place
      omega
    have hmoved := h.tokenAt_text 0
    rw [← hplace, ← hlockstep.on'.current] at hmoved
    have hkind := congrArg Token.kind hmoved.symm
    exact ⟨hend, hkind⟩

/-- Only the token for the end is seen at the end of the first text. -/
theorem kind_of_ended (h : Sequel grammar bytes front text joined) {parser : Parser}
    (hended : parser.On ⟨[], front.final⟩) : parser.current.kind = .endOfInput := by
  rw [hended.current]
  exact h.endsFront.final

/-- Before the end of the first text, the run over both texts is not at its end either. -/
theorem atEnd_eq_false {parser parser' : Parser} (habreast : h.tandem.abreast parser parser')
    (hmore : parser.atEnd = false) : parser'.atEnd = false := by
  rcases h.look habreast with ⟨hmatched, -⟩ | ⟨hended, -⟩
  · rwa [Parser.atEnd, ← hmatched.kind]
  · rw [Parser.atEnd, h.kind_of_ended hended] at hmore
    cases hmore

/-! ### Readers that cannot begin at the end -/

/-- Begun at the end of the first text, the action fails. -/
def Stuck (_ : Sequel grammar bytes front text joined) (action : Parse α) : Prop :=
  ∀ parser, parser.On ⟨[], front.final⟩ → ∃ diagnostic next, action parser = .error diagnostic next

namespace Stuck

variable {h}

theorem glance {judge : Token → Verdict α}
    (hend : ∀ token, token.kind = .endOfInput → ∃ problem, (judge token).result = .error problem) :
    h.Stuck (Parse.glance judge) := by
  intro parser hparser
  obtain ⟨problem, hproblem⟩ := hend _ (h.kind_of_ended hparser)
  rw [Parse.glance, hproblem]
  exact ⟨_, _, rfl⟩

theorem bind {first : Parse α} (hfirst : h.Stuck first) (more : α → Parse β) :
    h.Stuck (first >>= more) := by
  intro parser hparser
  obtain ⟨diagnostic, next, hfails⟩ := hfirst parser hparser
  change ∃ _ _, EStateM.bind first more parser = _
  rw [EStateM.bind, hfails]
  exact ⟨_, _, rfl⟩

/-- An action that leads nowhere at the end, and one that is stuck there. -/
theorem after [Located α] {first second : Parse α} {more : α → Parse β}
    (hfirst : h.tandem.Step first second) (hmore : ∀ result, h.Stuck (more result)) :
    h.Stuck (first >>= more) := by
  intro parser hparser
  have hends : (Astray.ended front.final).Ends (first parser) := hfirst.left .ended parser hparser
  change ∃ _ _, EStateM.bind first more parser = _
  rw [EStateM.bind]
  cases hrun : first parser with
  | ok result next =>
      rw [hrun] at hends
      exact hmore result next hends
  | error diagnostic next => exact ⟨_, _, rfl⟩

theorem bounded {family : Nat → Parse α} (hfamily : ∀ bound, h.Stuck (family bound)) :
    h.Stuck (Parse.bounded family) := fun parser => hfamily _ parser

theorem unexpected : h.Stuck (Parse.unexpected : Parse α) := fun _ _ => ⟨_, _, rfl⟩

theorem expect {kind : TokenKind} (hkind : kind ≠ .endOfInput) (more : Token → Parse α) :
    h.Stuck (Parse.expect kind >>= more) := by
  refine .bind ?_ more
  rw [expect_eq_glance]
  exact .glance fun token hend => judgeKind_of_end hend hkind

/-- One of two actions, as the token in front says, and one that is stuck at the end. -/
theorem either [Located α] {test : TokenKind → Bool} {first second first' second' : Parse α}
    {more : α → Parse β} (hfirst : h.tandem.Step first first')
    (hsecond : h.tandem.Step second second') (hmore : ∀ result, h.Stuck (more result)) :
    h.Stuck (currentKind >>= fun kind =>
      if test kind then first >>= more else second >>= more) := by
  apply after Tandem.Step.currentKind
  intro kind
  split
  · exact after hfirst hmore
  · exact after hsecond hmore

end Stuck

/-! ### Readers that stop at the seam -/

variable [Located α] [Located β]

/-- Two actions go on abreast, unless the one over the first text alone fails or something is
recorded; and what was recorded stays. -/
structure Carries (first second : Parse α) : Prop where
  kept : Astray.noted.Kept first
  both : ∀ parser parser', h.tandem.abreast parser parser' →
    h.tandem.Meet (first parser) (second parser') ∨ Fails (first parser)

namespace Carries

variable {h}

theorem pure {first second : α} (hsame : Matched ⟨.still, .still⟩ first second) :
    h.Carries (Pure.pure first) (Pure.pure second) where
  kept _ hnoted := hnoted
  both _ _ habreast := .inl (.ok hsame habreast)

theorem unexpected : h.Carries (Parse.unexpected : Parse α) Parse.unexpected := by
  have hstep : h.tandem.Step (Parse.unexpected : Parse α) Parse.unexpected := .unexpected
  exact ⟨hstep.left .noted, fun _ _ _ => .inr trivial⟩

/-- Two runs go on together if they were abreast before, or if the one that goes on fails. -/
theorem chain {first second : Parse α} {more others : α → Parse β}
    (hkept : Astray.noted.Kept first)
    (hruns : ∀ parser parser', h.tandem.abreast parser parser' →
      h.tandem.Meet (first parser) (second parser') ∨
      ∀ result next, first parser = .ok result next → Fails (more result next))
    (hmore : ∀ result result', Matched ⟨.still, .still⟩ result result' →
      h.Carries (more result) (others result')) :
    h.Carries (first >>= more) (second >>= others) := by
  refine ⟨fun parser hnoted => .bind (hkept parser hnoted) fun result =>
    (hmore result result rfl).kept, ?_⟩
  intro parser parser' habreast
  change h.tandem.Meet (EStateM.bind first more parser) (EStateM.bind second others parser') ∨
    Fails (EStateM.bind first more parser)
  rw [EStateM.bind, EStateM.bind]
  have hfirst := hruns parser parser' habreast
  generalize first parser = ended, second parser' = ended' at hfirst
  rcases hfirst with hmeet | hfails
  · cases hmeet with
    | ok hsame hnext => exact (hmore _ _ hsame).both _ _ hnext
    | error hsame hnext => exact .inl (.error hsame hnext)
  · right
    cases ended with
    | ok result next => exact hfails result next rfl
    | error => trivial

theorem bind {first second : Parse α} {more others : α → Parse β} (hfirst : h.Carries first second)
    (hmore : ∀ result result', Matched ⟨.still, .still⟩ result result' →
      h.Carries (more result) (others result')) :
    h.Carries (first >>= more) (second >>= others) := by
  refine chain hfirst.kept (fun parser parser' habreast => ?_) hmore
  refine (hfirst.both parser parser' habreast).imp_right fun hfails result next hrun => ?_
  rw [hrun] at hfails
  exact ((hmore result result rfl).kept next hfails).fails

/-- An action in front of one that is stuck at the end: if the first one comes to the end, the
second one fails. -/
theorem after {first second : Parse α} {more others : α → Parse β}
    (hfirst : h.tandem.Step first second) (hstuck : ∀ result, h.Stuck (more result))
    (hmore : ∀ result result', Matched ⟨.still, .still⟩ result result' →
      h.Carries (more result) (others result')) :
    h.Carries (first >>= more) (second >>= others) := by
  refine chain (hfirst.left .noted) (fun parser parser' habreast => ?_) hmore
  refine (hfirst.both parser parser' habreast).imp_right ?_
  rintro ⟨mark, hleft, -⟩ result next hrun
  rw [hrun] at hleft
  cases mark with
  | noted => exact ((hmore result result rfl).kept next hleft).fails
  | ended =>
      obtain ⟨diagnostic, last, hfails⟩ := hstuck result next hleft
      rw [hfails]
      trivial

/-- One of two actions, as the token in front says, and one that is stuck at the end. -/
theorem either {test : TokenKind → Bool} {first second first' second' : Parse α}
    {more others : α → Parse β} (hfirst : h.tandem.Step first first')
    (hsecond : h.tandem.Step second second') (hstuck : ∀ result, h.Stuck (more result))
    (hmore : ∀ result result', Matched ⟨.still, .still⟩ result result' →
      h.Carries (more result) (others result')) :
    h.Carries (currentKind >>= fun kind => if test kind then first >>= more else second >>= more)
      (currentKind >>= fun kind =>
        if test kind then first' >>= others else second' >>= others) := by
  refine after Tandem.Step.currentKind ?_ ?_
  · intro kind
    split
    · exact .after hfirst hstuck
    · exact .after hsecond hstuck
  · intro kind kind' hkind
    obtain rfl := matched_iff_eq.1 hkind
    split
    · exact after hfirst hstuck hmore
    · exact after hsecond hstuck hmore

/-- A look at one token: at the end it goes wrong, or it leaves the token at the seam as well. -/
theorem glance {judge : Token → Verdict α} (huniform : Uniform ⟨.still, .still⟩ judge)
    (hend : ∀ token token', token.kind = .endOfInput → token'.kind = (text.tokenAt 0).kind →
      (∃ problem, (judge token).result = .error problem) ∨
      ∃ result, judge token = ⟨false, .ok result⟩ ∧ judge token' = ⟨false, .ok result⟩) :
    h.Carries (Parse.glance judge) (Parse.glance judge) := by
  refine ⟨.glance judge, ?_⟩
  intro parser parser' habreast
  rcases h.look habreast with ⟨hmatched, hadvanced⟩ | ⟨hended, hseam⟩
  · obtain ⟨htakes, hagree⟩ := huniform _ _ hmatched
    rw [Parse.glance, Parse.glance]
    generalize (judge parser.current).result = result, (judge parser'.current).result = result'
      at hagree
    cases hagree with
    | error => exact .inr trivial
    | ok hsame =>
        refine .inl (.ok hsame ?_)
        rw [htakes]
        split
        · exact hadvanced
        · exact habreast
  · rcases hend _ _ (h.kind_of_ended hended) hseam with ⟨problem, hproblem⟩ | hleaves
    · right
      rw [Parse.glance, hproblem]
      trivial
    · left
      obtain ⟨result, hjudge, hjudge'⟩ := hleaves
      rw [Parse.glance, Parse.glance, hjudge, hjudge']
      exact .ok rfl habreast

/-- A look at the kind of one token: at the end, what follows is stuck or stops at the seam. -/
theorem currentKind {more others : TokenKind → Parse α}
    (hmore : ∀ kind, h.Carries (more kind) (others kind))
    (hend : h.Stuck (more .endOfInput) ∨
      h.Carries (more .endOfInput) (others (text.tokenAt 0).kind)) :
    h.Carries (Parse.currentKind >>= more) (Parse.currentKind >>= others) := by
  refine ⟨fun parser hnoted => (hmore _).kept parser hnoted, ?_⟩
  intro parser parser' habreast
  change h.tandem.Meet (more parser.current.kind parser) (others parser'.current.kind parser') ∨
    Fails (more parser.current.kind parser)
  rcases h.look habreast with ⟨hmatched, -⟩ | ⟨hended, hseam⟩
  · rw [hmatched.kind]
    exact (hmore _).both parser parser' habreast
  · rw [h.kind_of_ended hended, hseam]
    rcases hend with hstuck | hstops
    · right
      obtain ⟨diagnostic, next, hfails⟩ := hstuck parser hended
      rw [hfails]
      trivial
    · exact hstops.both parser parser' habreast

theorem bounded {first second : Nat → Parse α} (hfirst : Settled first) (hsecond : Settled second)
    (hfamily : ∀ bound, h.Carries (first bound) (second bound)) :
    h.Carries (Parse.bounded first) (Parse.bounded second) := by
  refine ⟨fun parser => (hfamily _).kept parser, ?_⟩
  intro parser parser' habreast
  obtain ⟨hsound, hsound'⟩ := h.tandem.sound habreast
  -- the run over both texts has more tokens left and so a larger bound
  have hcommon := (hfamily (parser.remaining + parser'.remaining + 1)).both parser parser' habreast
  rw [hfirst parser hsound _ (by omega), hsecond parser' hsound' _ (by omega)] at hcommon
  exact hcommon

theorem numbered {more others : Nat → Parse α}
    (hmore : ∀ source, h.Carries (more source) (others source)) :
    h.Carries (sourceNumber >>= more) (sourceNumber >>= others) where
  kept parser hnoted := (hmore parser.source).kept parser hnoted
  both parser parser' habreast := by
    change h.tandem.Meet (more parser.source parser) (others parser'.source parser') ∨ _
    rw [← habreast.1.source]
    exact (hmore parser.source).both parser parser' habreast

theorem expect {kind : TokenKind} (hkind : kind ≠ .endOfInput) {more others : Token → Parse α}
    (hmore : ∀ token token', Matched ⟨.still, .still⟩ token token' →
      h.Carries (more token) (others token')) :
    h.Carries (Parse.expect kind >>= more) (Parse.expect kind >>= others) := by
  refine bind ?_ hmore
  rw [expect_eq_glance]
  exact glance (Tandem.Step.uniform_judgeKind kind) fun _ _ hend _ =>
    .inl (judgeKind_of_end hend hkind)

end Carries

end Sequel

end Quill
