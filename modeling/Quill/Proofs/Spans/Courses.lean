import Quill.Proofs.Spans.Streams
import Quill.Proofs.Tandem.Rules

/-!
# What a parser adds on its way

On its way a parser records problems.  Those of parsing come in the order of the text: each of them
lies between the place where an action begins and the place where it ends.  To tell how often and
where statements are tried, a run may also leave notes among the problems, each with the number of
tokens taken by then.  Without its notes such a run is the plain run.

`Leads` says all this of two states, and `Follows` of two actions, the first with notes and the
second without.  There is a rule for each way of making actions.
-/

namespace Quill

/-- The numbers lie between two others, and each of them is below the next one and below the upper
one, by `gap` at least. -/
structure Rises (gap lower upper : Nat) (numbers : List Nat) : Prop where
  pairwise : numbers.Pairwise fun number later => number + gap ≤ later
  between : ∀ number ∈ numbers, lower ≤ number ∧ number + gap ≤ upper

namespace Rises

variable {gap lower middle middle' upper : Nat} {numbers others : List Nat}

theorem nil : Rises gap lower upper [] :=
  ⟨.nil, by simp⟩

theorem singleton {number : Nat} (hlower : lower ≤ number) (hupper : number + gap ≤ upper) :
    Rises gap lower upper [number] :=
  ⟨List.pairwise_singleton _ _, by simpa using ⟨hlower, hupper⟩⟩

/-- Numbers behind others go on with them. -/
theorem append (h : Rises gap lower middle numbers) (hothers : Rises gap middle' upper others)
    (hlower : lower ≤ middle') (hmiddle : middle ≤ middle') (hupper : middle ≤ upper) :
    Rises gap lower upper (numbers ++ others) := by
  constructor
  · rw [List.pairwise_append]
    refine ⟨h.pairwise, hothers.pairwise, ?_⟩
    intro number hnumber later hlater
    have hbelow := (h.between number hnumber).2
    have habove := (hothers.between later hlater).1
    omega
  · intro number hnumber
    rcases List.mem_append.1 hnumber with hnumber | hnumber
    · have hbetween := h.between number hnumber
      omega
    · have hbetween := hothers.between number hnumber
      omega

end Rises

namespace Diagnostic

/-- A number, noted down among diagnostics.  A parser finds no problems of typing, so that phase
tells the notes from all that it records. -/
def note (number : Nat) : Diagnostic :=
  ⟨.expectedExpression, .within "" number number, .typing⟩

/-- Whether the diagnostic may be a note of a parser. -/
def isNote (diagnostic : Diagnostic) : Bool :=
  diagnostic.phase == .typing

/-- Whether the problem is one of parsing. -/
def isSyntactic (diagnostic : Diagnostic) : Bool :=
  diagnostic.phase == .parsing

/-- Where the text to blame begins; of a note, the number. -/
def begins (diagnostic : Diagnostic) : Nat :=
  diagnostic.span.start.offset

end Diagnostic

namespace Parser

variable {file : String} {text : List Char} {least spare spare' : Nat} {parser next last : Parser}
  {diagnostic : Diagnostic} {added problems : List Diagnostic}

/-- The same state without notes. -/
def plain (parser : Parser) : Parser :=
  { parser with recorded := parser.recorded.filter (!·.isNote) }

/-- What is added between two states.  Notes have numbers from `least` on, and there are at most
`spare` problems of parsing more than notes. -/
structure Adds (file : String) (text : List Char) (least spare : Nat) (parser next : Parser)
    (added : List Diagnostic) : Prop where
  recorded : next.recorded = parser.recorded ++ added
  fits : ∀ diagnostic ∈ added, diagnostic.isNote = false → diagnostic.span.Fits file text
  syntactic : Rises 0 parser.place next.place
    ((added.filter Diagnostic.isSyntactic).map Diagnostic.begins)
  notes : Rises 1 (max least parser.consumed) next.consumed
    ((added.filter Diagnostic.isNote).map Diagnostic.begins)
  fewer : (added.filter Diagnostic.isSyntactic).length ≤
    (added.filter Diagnostic.isNote).length + spare

/-- The second state is behind the first one, and what is added between them is in order. -/
structure Leads (file : String) (text : List Char) (least spare : Nat) (parser next : Parser) :
    Prop where
  ordered : next.Ordered file text
  place_le : parser.place ≤ next.place
  consumed_le : parser.consumed ≤ next.consumed
  adds : ∃ added, Adds file text least spare parser next added

/-- The problems fit the text, and were found while lexing. -/
def Scanned (file : String) (text : List Char) (problems : List Diagnostic) : Prop :=
  ∀ problem ∈ problems, problem.span.Fits file text ∧ problem.phase = .lexing

theorem Scanned.nil : Scanned file text [] :=
  fun _ hproblem => nomatch hproblem

theorem Scanned.filter_isNote (h : Scanned file text problems) :
    problems.filter Diagnostic.isNote = [] :=
  List.filter_eq_nil_iff.2 fun problem hproblem => by
    rw [Diagnostic.isNote, (h problem hproblem).2]
    decide

theorem Scanned.filter_isSyntactic (h : Scanned file text problems) :
    problems.filter Diagnostic.isSyntactic = [] :=
  List.filter_eq_nil_iff.2 fun problem hproblem => by
    rw [Diagnostic.isSyntactic, (h problem hproblem).2]
    decide

/-- Problems of scanning are no notes. -/
theorem Scanned.filter_plain (h : Scanned file text problems) :
    problems.filter (!·.isNote) = problems :=
  List.filter_eq_self.2 fun problem hproblem => by
    rw [Diagnostic.isNote, (h problem hproblem).2]
    decide

/-- Problems of scanning come into view. -/
theorem Adds.view (hproblems : Scanned file text problems)
    (hrecorded : next.recorded = parser.recorded ++ problems) :
    Adds file text least 0 parser next problems := by
  refine ⟨hrecorded, fun problem hproblem _ => (hproblems problem hproblem).1, ?_, ?_, ?_⟩
  · rw [hproblems.filter_isSyntactic]
    exact .nil
  · rw [hproblems.filter_isNote]
    exact .nil
  · rw [hproblems.filter_isSyntactic]
    exact Nat.zero_le _

/-- Problems of scanning come into view, and then the token that was in front before is blamed. -/
theorem Adds.blame (hproblems : Scanned file text problems)
    (hrecorded : next.recorded = parser.recorded ++ problems) (hordered : parser.Ordered file text)
    (hplace : parser.place ≤ next.place) (hphase : diagnostic.phase = .parsing)
    (hspan : diagnostic.span = parser.current.span) :
    Adds file text least 1 parser (next.record diagnostic) (problems ++ [diagnostic]) := by
  have hsyntactic : (problems ++ [diagnostic]).filter Diagnostic.isSyntactic = [diagnostic] := by
    rw [List.filter_append, hproblems.filter_isSyntactic]
    simp [Diagnostic.isSyntactic, hphase]
  have hnotes : (problems ++ [diagnostic]).filter Diagnostic.isNote = [] := by
    rw [List.filter_append, hproblems.filter_isNote]
    simp [Diagnostic.isNote, hphase]
  have hbegins : diagnostic.begins = parser.place := by
    rw [Diagnostic.begins, hspan, place]
  constructor
  · rw [record, hrecorded, List.append_assoc]
  · intro other hother _
    rcases List.mem_append.1 hother with hother | hother
    · exact (hproblems other hother).1
    · rw [List.mem_singleton.1 hother, hspan]
      exact hordered.current_fits
  · rw [hsyntactic, List.map_singleton, hbegins]
    exact .singleton (Nat.le_refl _) hplace
  · rw [hnotes]
    exact .nil
  · rw [hsyntactic, hnotes]
    exact Nat.le_refl _

/-- What is added in two stretches. -/
theorem Adds.append {others : List Diagnostic} (h : Adds file text least spare parser next added)
    (hothers : Adds file text least spare' next last others) (hplace : parser.place ≤ next.place)
    (hplace' : next.place ≤ last.place) (hconsumed : parser.consumed ≤ next.consumed)
    (hconsumed' : next.consumed ≤ last.consumed) :
    Adds file text least (spare + spare') parser last (added ++ others) := by
  constructor
  · rw [hothers.recorded, h.recorded, List.append_assoc]
  · intro diagnostic hdiagnostic
    rcases List.mem_append.1 hdiagnostic with hdiagnostic | hdiagnostic
    · exact h.fits diagnostic hdiagnostic
    · exact hothers.fits diagnostic hdiagnostic
  · rw [List.filter_append, List.map_append]
    exact h.syntactic.append hothers.syntactic hplace (Nat.le_refl _) hplace'
  · rw [List.filter_append, List.map_append]
    exact h.notes.append hothers.notes (by omega) (by omega) hconsumed'
  · have hfewer := h.fewer
    have hfewer' := hothers.fewer
    rw [List.filter_append, List.filter_append, List.length_append, List.length_append]
    omega

namespace Leads

theorem refl (hordered : parser.Ordered file text) : Leads file text least 0 parser parser :=
  ⟨hordered, Nat.le_refl _, Nat.le_refl _, [], .view .nil (List.append_nil _).symm⟩

theorem trans (h : Leads file text least spare parser next)
    (hnext : Leads file text least spare' next last) :
    Leads file text least (spare + spare') parser last := by
  obtain ⟨added, hadded⟩ := h.adds
  obtain ⟨others, hothers⟩ := hnext.adds
  exact ⟨hnext.ordered, Nat.le_trans h.place_le hnext.place_le,
    Nat.le_trans h.consumed_le hnext.consumed_le, added ++ others,
    hadded.append hothers h.place_le hnext.place_le h.consumed_le hnext.consumed_le⟩

/-- A token is taken. -/
theorem advance (hordered : parser.Ordered file text) :
    Leads file text least 0 parser parser.advance :=
  ⟨hordered.advance, hordered.place_le_advance, Nat.le_succ _, parser.nextProblems,
    .view hordered.nextProblems rfl⟩

/-- The token in front is looked at, and it may be taken. -/
theorem look (hordered : parser.Ordered file text) (takes : Bool) :
    Leads file text least 0 parser (if takes then parser.advance else parser) := by
  cases takes with
  | false => exact refl hordered
  | true => exact advance hordered

/-- The token in front is blamed, and it may be taken. -/
theorem blame (hordered : parser.Ordered file text) (takes : Bool)
    (hphase : diagnostic.phase = .parsing) (hspan : diagnostic.span = parser.current.span) :
    Leads file text least 1 parser
      ((if takes then parser.advance else parser).record diagnostic) := by
  cases takes with
  | false =>
      exact ⟨hordered.record diagnostic, Nat.le_refl _, Nat.le_refl _, _,
        .blame .nil (List.append_nil _).symm hordered (Nat.le_refl _) hphase hspan⟩
  | true =>
      exact ⟨hordered.advance.record diagnostic, hordered.place_le_advance, Nat.le_succ _, _,
        .blame hordered.nextProblems rfl hordered hordered.place_le_advance hphase hspan⟩

/-- Notes that are bounded from the start on are bounded from an earlier number on. -/
theorem of_least {spare : Nat} (h : Leads file text parser.consumed spare parser next)
    (hle : least ≤ parser.consumed) : Leads file text least spare parser next := by
  obtain ⟨added, hadded⟩ := h.adds
  have hbound : max parser.consumed parser.consumed = max least parser.consumed := by omega
  have hnotes := hadded.notes
  rw [hbound] at hnotes
  exact ⟨h.ordered, h.place_le, h.consumed_le, added, hadded.recorded, hadded.fits,
    hadded.syntactic, hnotes, hadded.fewer⟩

/-- A note at the start makes up for one problem, if a token is taken behind it. -/
theorem noted (h : Leads file text (parser.consumed + 1) spare
      (parser.record (.note parser.consumed)) next)
    (hspare : spare ≤ 1) (hlt : parser.consumed < next.consumed) :
    Leads file text parser.consumed 0 parser next := by
  obtain ⟨added, hadded⟩ := h.adds
  have hnote : (Diagnostic.note parser.consumed).isNote = true := rfl
  have hother : (Diagnostic.note parser.consumed).isSyntactic = false := rfl
  refine ⟨h.ordered, h.place_le, h.consumed_le, .note parser.consumed :: added, ?_, ?_, ?_, ?_, ?_⟩
  · rw [hadded.recorded, record, List.append_assoc]
    rfl
  · intro diagnostic hdiagnostic hplain
    rcases List.mem_cons.1 hdiagnostic with rfl | hdiagnostic
    · rw [hnote] at hplain
      cases hplain
    · exact hadded.fits diagnostic hdiagnostic hplain
  · rw [List.filter_cons_of_neg (by simp [hother])]
    exact hadded.syntactic
  · rw [List.filter_cons_of_pos hnote, List.map_cons, ← List.singleton_append]
    have hfirst : Rises 1 (max parser.consumed parser.consumed) (parser.consumed + 1)
        [(Diagnostic.note parser.consumed).begins] :=
      .singleton (Nat.le_of_eq (Nat.max_self _)) (Nat.le_refl _)
    have hlower : parser.consumed + 1 ≤
        max (parser.consumed + 1) (parser.record (.note parser.consumed)).consumed :=
      Nat.le_max_left _ _
    exact hfirst.append hadded.notes (by omega) hlower hlt
  · have hfewer := hadded.fewer
    rw [List.filter_cons_of_neg (by simp [hother]), List.filter_cons_of_pos hnote,
      List.length_cons]
    omega

end Leads

/-! ### Notes and the steps of a parser -/

@[simp] theorem current_plain (parser : Parser) : parser.plain.current = parser.current := rfl

@[simp] theorem consumed_plain (parser : Parser) : parser.plain.consumed = parser.consumed := rfl

@[simp] theorem remaining_plain (parser : Parser) : parser.plain.remaining = parser.remaining := rfl

theorem Ordered.sound_plain (h : parser.Ordered file text) : parser.plain.Sound :=
  ⟨h.sound.ends, h.sound.others⟩

/-- Taking a token leaves no note. -/
theorem Ordered.plain_advance (h : parser.Ordered file text) :
    parser.advance.plain = parser.plain.advance := by
  have hview : Scanned file text parser.nextProblems := h.nextProblems
  rw [plain, Parser.advance, List.filter_append, hview.filter_plain]
  rfl

/-- A problem of parsing is no note. -/
theorem plain_record (parser : Parser) (hphase : diagnostic.phase = .parsing) :
    (parser.record diagnostic).plain = parser.plain.record diagnostic := by
  rw [plain, record, List.filter_append]
  simp [Diagnostic.isNote, hphase, plain, record]

/-- A note leaves the plain state as it is. -/
theorem plain_note (parser : Parser) (number : Nat) :
    (parser.record (.note number)).plain = parser.plain := by
  rw [plain, record, List.filter_append]
  simp [Diagnostic.note, Diagnostic.isNote, plain]

/-- Tokens are skipped, with or without notes. -/
theorem Ordered.skip (h : parser.Ordered file text) (least count : Nat) :
    Leads file text least 0 parser (parser.skip count) ∧
      (parser.skip count).plain = parser.plain.skip count := by
  induction count generalizing parser with
  | zero => exact ⟨.refl h, rfl⟩
  | succ count ih =>
      obtain ⟨hleads, hplain⟩ := ih h.advance
      rw [h.plain_advance] at hplain
      exact ⟨(Leads.advance h).trans hleads, hplain⟩

/-- A statement is given up, with or without notes. -/
theorem Ordered.recover (h : parser.Ordered file text) (least before : Nat) :
    Leads file text least 0 parser (parser.recover before) ∧
      (parser.recover before).plain = parser.plain.recover before := by
  by_cases hmoves : (parser.consumed == before && !parser.atEnd) = true
  · have hplain : (parser.plain.consumed == before && !parser.plain.atEnd) = true := hmoves
    obtain ⟨hleads, hskip⟩ := h.advance.skip least parser.advance.restOfLine
    rw [h.plain_advance] at hskip
    rw [Parser.recover, Parser.recover, if_pos hmoves, if_pos hplain]
    exact ⟨(Leads.advance h).trans hleads, hskip⟩
  · have hplain : ¬(parser.plain.consumed == before && !parser.plain.atEnd) = true := hmoves
    rw [Parser.recover, Parser.recover, if_neg hmoves, if_neg hplain]
    exact h.skip least parser.restOfLine

end Parser

namespace Parse

variable {α β : Type} {file : String} {text : List Char} {least : Nat} {parser : Parser}

/-- The same end of an action, without notes. -/
def plainly : EStateM.Result Diagnostic Parser α → EStateM.Result Diagnostic Parser α
  | .ok result next => .ok result next.plain
  | .error diagnostic next => .error diagnostic next.plain

/-- How an action may end that begins at a state: with a good result, or with a problem of parsing
that has its place among those recorded. -/
def EndsInOrder (file : String) (text : List Char) (least : Nat) (parser : Parser)
    (good : α → Parser → Prop) : EStateM.Result Diagnostic Parser α → Prop
  | .ok result next => Parser.Leads file text least 0 parser next ∧ good result next
  | .error diagnostic next =>
    Parser.Leads file text least 1 parser (next.record diagnostic) ∧ diagnostic.phase = .parsing

/-- The second action does without notes what the first one does, and both end in order. -/
structure Follows (file : String) (text : List Char) (least : Nat) (first second : Parse α)
    (parser : Parser) (good : α → Parser → Prop) : Prop where
  same : second parser.plain = plainly (first parser)
  ends : EndsInOrder file text least parser good (first parser)

/-- The token that stood in front was taken. -/
structure Taken (file : String) (text : List Char) (parser : Parser) (token : Token)
    (next : Parser) : Prop where
  lies : token.span.Lies file text parser.place next.place
  consumed_lt : parser.consumed < next.consumed

theorem Taken.current (hordered : parser.Ordered file text) :
    Taken file text parser parser.current parser.advance :=
  ⟨⟨hordered.current_fits, Nat.le_refl _, hordered.stop_le_place_advance⟩, Nat.lt_succ_self _⟩

namespace Follows

/-- What is good at the end may be put in a weaker way. -/
theorem mono {first second : Parse α} {good fine : α → Parser → Prop}
    (h : Follows file text least first second parser good)
    (hfine : ∀ result next, parser.place ≤ next.place → good result next → fine result next) :
    Follows file text least first second parser fine where
  same := h.same
  ends := by
    have hends := h.ends
    cases heq : first parser with
    | ok result next =>
        rw [heq] at hends
        exact ⟨hends.1, hfine result next hends.1.place_le hends.2⟩
    | error diagnostic next =>
        rw [heq] at hends
        exact hends

/-- Nothing is done. -/
theorem pure {result : α} {good : α → Parser → Prop} (hordered : parser.Ordered file text)
    (hgood : good result parser) :
    Follows file text least (Pure.pure result) (Pure.pure result) parser good :=
  ⟨rfl, .refl hordered, hgood⟩

/-- One action after another. -/
theorem bind {first second : Parse α} {more others : α → Parse β} {good : α → Parser → Prop}
    {fine : β → Parser → Prop} (h : Follows file text least first second parser good)
    (hmore : ∀ result next, next.Ordered file text → parser.place ≤ next.place →
      parser.consumed ≤ next.consumed → good result next →
      Follows file text least (more result) (others result) next fine) :
    Follows file text least (first >>= more) (second >>= others) parser fine := by
  have hsame := h.same
  have hends := h.ends
  cases heq : first parser with
  | error diagnostic next =>
      rw [heq] at hsame hends
      have hfirst : (first >>= more) parser = .error diagnostic next := by
        show EStateM.bind first more parser = _
        rw [EStateM.bind, heq]
      have hsecond : (second >>= others) parser.plain = .error diagnostic next.plain := by
        show EStateM.bind second others parser.plain = _
        rw [EStateM.bind, hsame]
        rfl
      constructor
      · rw [hfirst, hsecond]
        rfl
      · rw [hfirst]
        exact hends
  | ok result next =>
      rw [heq] at hsame hends
      obtain ⟨hleads, hgood⟩ := hends
      have hfirst : (first >>= more) parser = more result next := by
        show EStateM.bind first more parser = _
        rw [EStateM.bind, heq]
      have hsecond : (second >>= others) parser.plain = others result next.plain := by
        show EStateM.bind second others parser.plain = _
        rw [EStateM.bind, hsame]
        rfl
      have hrest := hmore result next hleads.ordered hleads.place_le hleads.consumed_le hgood
      constructor
      · rw [hfirst, hsecond, hrest.same]
      · rw [hfirst]
        have hlast := hrest.ends
        cases hnext : more result next with
        | ok final last =>
            rw [hnext] at hlast
            exact ⟨hleads.trans hlast.1, hlast.2⟩
        | error diagnostic last =>
            rw [hnext] at hlast
            refine ⟨?_, hlast.2⟩
            have hboth := hleads.trans hlast.1
            rwa [Nat.zero_add] at hboth

/-- One of two actions, and another one after it. -/
theorem either {c : Prop} [Decidable c] {first second first' second' : Parse α}
    {more others : α → Parse β} (good : α → Parser → Prop) {fine : β → Parser → Prop}
    (hfirst : c → Follows file text least first first' parser good)
    (hsecond : ¬ c → Follows file text least second second' parser good)
    (hmore : ∀ result next, next.Ordered file text → parser.place ≤ next.place →
      parser.consumed ≤ next.consumed → good result next →
      Follows file text least (more result) (others result) next fine) :
    Follows file text least (if c then first >>= more else second >>= more)
      (if c then first' >>= others else second' >>= others) parser fine := by
  split
  · next hc => exact bind (hfirst hc) hmore
  · next hc => exact bind (hsecond hc) hmore

/-- A look at the token in front. -/
theorem glance {judge : Token → Verdict α} {good : α → Parser → Prop}
    (hordered : parser.Ordered file text)
    (hphase : ∀ problem, (judge parser.current).result = .error problem → problem.phase = .parsing)
    (hgood : ∀ result, (judge parser.current).result = .ok result →
      good result (if (judge parser.current).takes then parser.advance else parser)) :
    Follows file text least (Parse.glance judge) (Parse.glance judge) parser good := by
  have hplain : (if (judge parser.current).takes then parser.plain.advance else parser.plain) =
      (if (judge parser.current).takes then parser.advance else parser).plain := by
    split
    · exact hordered.plain_advance.symm
    · rfl
  cases hresult : (judge parser.current).result with
  | ok result =>
      have hrun : Parse.glance judge parser = .ok result
          (if (judge parser.current).takes then parser.advance else parser) := by
        rw [Parse.glance, hresult]
      constructor
      · rw [hrun, Parse.glance, Parser.current_plain, hresult, hplain]
        rfl
      · rw [hrun]
        exact ⟨.look hordered _, hgood result hresult⟩
  | error problem =>
      have hrun : Parse.glance judge parser = .error (.of problem parser.current.span)
          (if (judge parser.current).takes then parser.advance else parser) := by
        rw [Parse.glance, hresult]
      constructor
      · rw [hrun, Parse.glance, Parser.current_plain, hresult, hplain]
        rfl
      · rw [hrun]
        exact ⟨.blame hordered _ (hphase problem hresult) rfl, hphase problem hresult⟩

/-- A complaint about the token in front. -/
theorem unexpected {good : α → Parser → Prop} (hordered : parser.Ordered file text) :
    Follows file text least Parse.unexpected Parse.unexpected parser good := by
  rw [unexpected_eq_glance]
  apply glance hordered
  · rintro problem ⟨⟩
    rfl
  · intro result hresult
    cases hresult

/-- Looking at the kind of the token in front. -/
theorem currentKind (hordered : parser.Ordered file text) :
    Follows file text least Parse.currentKind Parse.currentKind parser fun kind next =>
      kind = parser.current.kind ∧ parser = next :=
  ⟨rfl, .refl hordered, rfl, rfl⟩

/-- Taking a token. -/
theorem advance (hordered : parser.Ordered file text) :
    Follows file text least Parse.advance Parse.advance parser (Taken file text parser) := by
  rw [advance_eq_glance]
  apply glance hordered
  · intro problem hproblem
    cases hproblem
  · rintro token ⟨⟩
    exact .current hordered

/-- Taking a token of a given kind. -/
theorem expect {kind : TokenKind} (hordered : parser.Ordered file text) :
    Follows file text least (Parse.expect kind) (Parse.expect kind) parser
      (Taken file text parser) := by
  rw [expect_eq_glance]
  cases hkind : parser.current.kind == kind with
  | false =>
      apply glance hordered
      · intro problem hproblem
        rw [judgeKind, hkind] at hproblem
        cases hproblem
        rfl
      · intro token htoken
        rw [judgeKind, hkind] at htoken
        cases htoken
  | true =>
      apply glance hordered
      · intro problem hproblem
        rw [judgeKind, hkind] at hproblem
        cases hproblem
      · intro token htoken
        rw [judgeKind, hkind] at htoken ⊢
        cases htoken
        exact .current hordered

/-- Taking a token that may stand there. -/
theorem accept {kind : TokenKind} (hordered : parser.Ordered file text) :
    Follows file text least (Parse.accept kind) (Parse.accept kind) parser fun _ _ => True := by
  rw [accept_eq_glance]
  apply glance hordered
  · intro problem hproblem
    cases hproblem
  · exact fun _ _ => trivial

/-- Actions that are bounded by the number of tokens left. -/
theorem bounded {first second : Nat → Parse α} {good : α → Parser → Prop}
    (h : Follows file text least (first (parser.remaining + 1)) (second (parser.remaining + 1))
      parser good) :
    Follows file text least (Parse.bounded first) (Parse.bounded second) parser good :=
  ⟨h.same, h.ends⟩

/-- Asking for the number of the source. -/
theorem sourceNumber (hordered : parser.Ordered file text) :
    Follows file text least Parse.sourceNumber Parse.sourceNumber parser fun _ _ => True :=
  ⟨rfl, .refl hordered, trivial⟩

end Follows

end Parse

end Quill
