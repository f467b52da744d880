import Quill.Proofs.Parsing.Statements
import Quill.Proofs.Tandem.Places

/-!
# Two runs of the parser side by side

Several properties of the parser compare its runs on two texts: texts with another layout, a text
with and without a line in front of it, a text that is cut short.  What they have in common is that
the two runs do the same, action for action, as long as they see matching tokens.

A `Tandem` is a way of comparing two runs, given by what it says of two states: that they are
abreast, or that both runs have gone astray.  `Step` says the same of two actions, and it has a rule
for each way of making actions: giving a result, going on, a look at one token, a bounded recursion,
the number of the source, and giving up a statement.
-/

namespace Quill

/-- What is decided by a look at one token: whether it is taken, and a result or what is wrong with
the token. -/
structure Verdict (α : Type) where
  takes : Bool
  result : Except Problem α

namespace Parse

variable {α β : Type}

/-- Looks at the token in front and does what the verdict on it says. -/
def glance (judge : Token → Verdict α) : Parse α := fun parser =>
  let verdict := judge parser.current
  let next := if verdict.takes then parser.advance else parser
  match verdict.result with
  | .ok result => .ok result next
  | .error problem => .error (.of problem parser.current.span) next

/-! ### What is decided by one token -/

/-- The token is taken if it is of the given kind, and left otherwise. -/
def judgeAccept (kind : TokenKind) (token : Token) : Verdict Bool :=
  ⟨token.kind == kind, .ok (token.kind == kind)⟩

/-- The token is taken if it is of the given kind. -/
def judgeKind (kind : TokenKind) (token : Token) : Verdict Token :=
  if token.kind == kind then ⟨true, .ok token⟩
  else ⟨false, .error (.unexpectedToken token.description)⟩

/-- The token is taken for the name of a type. -/
def judgeTypeName (token : Token) : Verdict (Ty × Span) :=
  if token.kind == .identifier then
    match Ty.ofName? token.value with
    | some type => ⟨true, .ok (type, token.span)⟩
    | none => ⟨true, .error (.notAType token.value)⟩
  else
    ⟨false, .error (.unexpectedToken token.description)⟩

/-- The token is taken if it is a literal or a name. -/
def judgeAtom (token : Token) : Verdict Expr :=
  match Expr.ofToken token with
  | .ok expr => ⟨true, .ok expr⟩
  | .error diagnostic => ⟨false, .error diagnostic.problem⟩

/-- The token is taken for an operator. -/
def judgeOperator (token : Token) : Verdict Operator :=
  match Operator.ofTokenKind? token.kind with
  | some operator => ⟨true, .ok operator⟩
  | none => ⟨true, .error (.unexpectedToken token.description)⟩

/-- The token says which form of operand it opens. -/
def judgeOperand (grammar : Grammar) (token : Token) : Verdict OperandForm :=
  match grammar.operand token.kind with
  | some form => ⟨false, .ok form⟩
  | none => ⟨false, .error .expectedExpression⟩

theorem advance_eq_glance : advance = glance fun token => ⟨true, .ok token⟩ := rfl

theorem currentKind_eq_glance : currentKind = glance fun token => ⟨false, .ok token.kind⟩ := rfl

theorem unexpected_eq_glance :
    unexpected (α := α) =
      glance fun token => ⟨false, .error (.unexpectedToken token.description)⟩ :=
  rfl

theorem accept_eq_glance (kind : TokenKind) : accept kind = glance (judgeAccept kind) := by
  funext parser
  rw [accept, glance, judgeAccept]
  cases parser.current.kind == kind <;> rfl

theorem expect_eq_glance (kind : TokenKind) : expect kind = glance (judgeKind kind) := by
  funext parser
  rw [expect, glance, judgeKind]
  cases parser.current.kind == kind <;> rfl

theorem typeName_eq_glance : typeName = glance judgeTypeName := by
  funext parser
  change EStateM.bind (expect .identifier) _ parser = _
  rw [EStateM.bind, expect, glance, judgeTypeName]
  cases parser.current.kind == .identifier with
  | false => rfl
  | true =>
      simp only [if_true, advance]
      cases Ty.ofName? parser.current.value <;> rfl

/-- A token that is no operand is blamed itself. -/
theorem ofToken_error {token : Token} {diagnostic : Diagnostic}
    (h : Expr.ofToken token = .error diagnostic) :
    diagnostic = .of diagnostic.problem token.span := by
  rw [Expr.ofToken] at h
  split at h
  · split at h
    · cases h
    · cases h
      rfl
  all_goals cases h
  rfl

theorem atom_eq_glance : atom = glance judgeAtom := by
  funext parser
  rw [atom]
  change EStateM.bind current _ parser = _
  rw [EStateM.bind, current, glance, judgeAtom]
  simp only
  cases hread : Expr.ofToken parser.current with
  | ok expr => rfl
  | error diagnostic =>
      change EStateM.Result.error diagnostic parser = _
      rw [ofToken_error hread]
      rfl

theorem binary_eq_glance (sub : ExprReader) (left : Expr) (power : BindingPower) :
    binary sub left power = glance judgeOperator >>= fun operator => do
      let right ← sub power
      return .binary operator left right (left.span.spanning right.span) := by
  funext parser
  rw [binary]
  change EStateM.bind advance _ parser = EStateM.bind _ _ parser
  rw [EStateM.bind, EStateM.bind, advance, glance, judgeOperator]
  simp only
  cases Operator.ofTokenKind? parser.current.kind <;> rfl

theorem exprStep_eq_glance (grammar : Grammar) (sub : ExprReader) (level : BindingPower) :
    exprStep grammar sub level = glance (judgeOperand grammar) >>= fun form =>
      operand sub form >>= fun left => bounded fun steps => tails grammar sub level steps left := by
  funext parser
  rw [exprStep]
  change EStateM.bind current _ parser = EStateM.bind _ _ parser
  rw [EStateM.bind, EStateM.bind, current, glance, judgeOperand]
  simp only
  cases grammar.operand parser.current.kind <;> rfl

/-- A bounded recursion does the same under all bounds that exceed the number of tokens left. -/
def Settled (family : Nat → Parse α) : Prop :=
  ∀ parser : Parser, parser.Sound → ∀ bound, parser.remaining < bound →
    family bound parser = family (parser.remaining + 1) parser

end Parse

namespace Pairing

variable (pair : Pairing) {α : Type} [Located α]

/-- Two looks come to the same: matching results, or the same problem. -/
inductive Agree : Except Problem α → Except Problem α → Prop
  | ok {first second : α} (same : pair.Matched first second) : Agree (.ok first) (.ok second)
  | error {problem : Problem} : Agree (.error problem) (.error problem)

/-- A verdict that comes to the same on matching tokens. -/
def Uniform (judge : Token → Verdict α) : Prop :=
  ∀ token token', pair.Matched token token' →
    (judge token).takes = (judge token').takes ∧
      pair.Agree (judge token).result (judge token').result

end Pairing

/-- A way in which a run can have left the other one, for good. -/
structure Astray where
  /-- What is true of the states from then on. -/
  lost : Parser → Prop
  /-- What is true of the problems that are found from then on. -/
  blamed : Diagnostic → Prop
  advance : ∀ {parser}, lost parser → lost parser.advance
  blames : ∀ {parser} problem, lost parser → blamed (.of problem parser.current.span)
  recover : ∀ {parser diagnostic} before, lost parser → blamed diagnostic →
    lost ((parser.record diagnostic).recover before)

namespace Astray

variable (astray : Astray) {α β : Type}

/-- An action ends astray. -/
def Ends : EStateM.Result Diagnostic Parser α → Prop
  | .ok _ next => astray.lost next
  | .error diagnostic next => astray.lost next ∧ astray.blamed diagnostic

/-- An action that begins astray ends astray. -/
def Kept (action : Parse α) : Prop :=
  ∀ parser, astray.lost parser → astray.Ends (action parser)

variable {astray}

theorem Ends.bind {first : Parse α} {more : α → Parse β} {parser : Parser}
    (h : astray.Ends (first parser)) (hmore : ∀ result, astray.Kept (more result)) :
    astray.Ends ((first >>= more) parser) := by
  change astray.Ends (EStateM.bind first more parser)
  rw [EStateM.bind]
  cases heq : first parser with
  | ok result next =>
      rw [heq] at h
      exact hmore result next h
  | error diagnostic next =>
      rw [heq] at h
      exact h

theorem Kept.glance (judge : Token → Verdict α) : astray.Kept (Parse.glance judge) := by
  intro parser hlost
  have hnext : astray.lost (if (judge parser.current).takes then parser.advance else parser) := by
    split
    · exact astray.advance hlost
    · exact hlost
  rw [Parse.glance]
  cases (judge parser.current).result with
  | ok result => exact hnext
  | error problem => exact ⟨hnext, astray.blames problem hlost⟩

theorem Ends.orRecover {inner : Parse Stmt} {parser : Parser}
    (h : astray.Ends (inner parser)) :
    astray.Ends (Parse.always (Parse.orRecover inner) parser) := by
  change astray.lost (Parse.orRecover inner parser).2
  rw [Parse.orRecover]
  cases heq : inner parser with
  | ok result next =>
      rw [heq] at h
      exact h
  | error diagnostic next =>
      rw [heq] at h
      exact astray.recover _ h.1 h.2

end Astray

/-- A way of comparing two runs of the parser. -/
structure Tandem (pair : Pairing) where
  /-- What is remembered of the moment when the runs part. -/
  Mark : Type
  left : Mark → Astray
  right : Mark → Astray
  /-- Runs that can part are compared without moving one of them against the other. -/
  alone : Mark → pair.left = pair.right
  /-- The two runs stand at matching states. -/
  abreast : Parser → Parser → Prop
  /-- The two runs find the same problem. -/
  same : Diagnostic → Diagnostic → Prop
  sound : ∀ {parser parser'}, abreast parser parser' → parser.Sound ∧ parser'.Sound
  source : ∀ {parser parser'}, abreast parser parser' →
    pair.left.source parser.source = pair.right.source parser'.source
  look : ∀ {parser parser'}, abreast parser parser' →
    (pair.Matched parser.current parser'.current ∧ abreast parser.advance parser'.advance ∧
      ∀ problem, same (.of problem parser.current.span) (.of problem parser'.current.span)) ∨
    ∃ mark, (left mark).lost parser ∧ (right mark).lost parser'
  recover : ∀ {parser parser' next next' diagnostic diagnostic'}, abreast parser parser' →
    abreast next next' → parser.consumed ≤ next.consumed → same diagnostic diagnostic' →
    abreast ((next.record diagnostic).recover parser.consumed)
      ((next'.record diagnostic').recover parser'.consumed) ∨
    ∃ mark, (left mark).lost ((next.record diagnostic).recover parser.consumed) ∧
      (right mark).lost ((next'.record diagnostic').recover parser'.consumed)

namespace Tandem

variable {pair : Pairing} (tandem : Tandem pair) {α β : Type} [Located α] [Located β]

/-- Two actions that began abreast end abreast. -/
inductive Meet : EStateM.Result Diagnostic Parser α → EStateM.Result Diagnostic Parser α → Prop
  | ok {result result' : α} {next next' : Parser} (same : pair.Matched result result')
    (abreast : tandem.abreast next next') : Meet (.ok result next) (.ok result' next')
  | error {diagnostic diagnostic' : Diagnostic} {next next' : Parser}
    (same : tandem.same diagnostic diagnostic') (abreast : tandem.abreast next next') :
    Meet (.error diagnostic next) (.error diagnostic' next')

/-- Two actions that began abreast have both gone astray. -/
def Part (first second : EStateM.Result Diagnostic Parser α) : Prop :=
  ∃ mark, (tandem.left mark).Ends first ∧ (tandem.right mark).Ends second

/-- Two actions do the same: begun abreast they end abreast, or both go astray; and a run that has
gone astray stays so. -/
structure Step (first second : Parse α) : Prop where
  left : ∀ mark, (tandem.left mark).Kept first
  right : ∀ mark, (tandem.right mark).Kept second
  both : ∀ parser parser', tandem.abreast parser parser' →
    tandem.Meet (first parser) (second parser') ∨ tandem.Part (first parser) (second parser')

/-- Runs that can part match everything with itself. -/
theorem matched_self (mark : tandem.Mark) (result : α) : pair.Matched result result := by
  rw [Pairing.Matched, tandem.alone mark]

namespace Step

variable {tandem}

theorem pure {first second : α} (h : pair.Matched first second) :
    tandem.Step (Pure.pure first) (Pure.pure second) where
  left _ _ hlost := hlost
  right _ _ hlost := hlost
  both _ _ habreast := .inl (.ok h habreast)

theorem bind {first second : Parse α} {more others : α → Parse β} (h : tandem.Step first second)
    (hmore : ∀ result result', pair.Matched result result' →
      tandem.Step (more result) (others result')) :
    tandem.Step (first >>= more) (second >>= others) := by
  have hleft : ∀ mark result, (tandem.left mark).Kept (more result) := fun mark result =>
    (hmore result result (tandem.matched_self mark result)).left mark
  have hright : ∀ mark result, (tandem.right mark).Kept (others result) := fun mark result =>
    (hmore result result (tandem.matched_self mark result)).right mark
  refine ⟨fun mark parser hlost => .bind (h.left mark parser hlost) (hleft mark),
    fun mark parser hlost => .bind (h.right mark parser hlost) (hright mark), ?_⟩
  intro parser parser' habreast
  rcases h.both parser parser' habreast with hmeet | ⟨mark, hfirst, hsecond⟩
  · change tandem.Meet (EStateM.bind first more parser) (EStateM.bind second others parser') ∨
      tandem.Part (EStateM.bind first more parser) (EStateM.bind second others parser')
    rw [EStateM.bind, EStateM.bind]
    generalize first parser = ended, second parser' = ended' at hmeet
    cases hmeet with
    | ok hsame hnext => exact (hmore _ _ hsame).both _ _ hnext
    | error hsame hnext => exact .inl (.error hsame hnext)
  · exact .inr ⟨mark, .bind hfirst (hleft mark), .bind hsecond (hright mark)⟩

/-- Going on with something that is the same in both runs. -/
theorem bindSame [Placeless α] {first second : Parse α} {more others : α → Parse β}
    (h : tandem.Step first second) (hmore : ∀ result, tandem.Step (more result) (others result)) :
    tandem.Step (first >>= more) (second >>= others) := by
  apply h.bind
  intro result result' hmatched
  obtain rfl := Pairing.matched_iff_eq.1 hmatched
  exact hmore result

/-- One of two actions, and another one after it. -/
theorem either {c : Prop} [Decidable c] {first second first' second' : Parse α}
    {more others : α → Parse β} (hfirst : tandem.Step first first')
    (hsecond : tandem.Step second second')
    (hmore : ∀ result result', pair.Matched result result' →
      tandem.Step (more result) (others result')) :
    tandem.Step (if c then first >>= more else second >>= more)
      (if c then first' >>= others else second' >>= others) := by
  split
  · exact hfirst.bind hmore
  · exact hsecond.bind hmore

theorem glance {judge : Token → Verdict α} (h : pair.Uniform judge) :
    tandem.Step (Parse.glance judge) (Parse.glance judge) := by
  refine ⟨fun _ => .glance judge, fun _ => .glance judge, ?_⟩
  intro parser parser' habreast
  rcases tandem.look habreast with ⟨hmatched, hadvanced, hsame⟩ | ⟨mark, hlost, hlost'⟩
  · left
    obtain ⟨htakes, hagree⟩ := h _ _ hmatched
    have hnext : tandem.abreast
        (if (judge parser.current).takes then parser.advance else parser)
        (if (judge parser'.current).takes then parser'.advance else parser') := by
      rw [htakes]
      split
      · exact hadvanced
      · exact habreast
    rw [Parse.glance, Parse.glance]
    generalize (judge parser.current).result = result, (judge parser'.current).result = result'
      at hagree
    cases hagree with
    | ok hmatch => exact .ok hmatch hnext
    | error => exact .error (hsame _) hnext
  · exact .inr ⟨mark, Astray.Kept.glance judge parser hlost,
      Astray.Kept.glance judge parser' hlost'⟩

theorem bounded {first second : Nat → Parse α} (hfirst : Parse.Settled first)
    (hsecond : Parse.Settled second) (h : ∀ bound, tandem.Step (first bound) (second bound)) :
    tandem.Step (Parse.bounded first) (Parse.bounded second) := by
  refine ⟨fun mark parser => (h _).left mark parser, fun mark parser => (h _).right mark parser, ?_⟩
  intro parser parser' habreast
  obtain ⟨hsound, hsound'⟩ := tandem.sound habreast
  -- The two runs have different bounds, so both are compared at a bound above either of them.
  have hcommon := (h (parser.remaining + parser'.remaining + 1)).both parser parser' habreast
  rw [hfirst parser hsound _ (by omega), hsecond parser' hsound' _ (by omega)] at hcommon
  exact hcommon

theorem numbered {more others : Nat → Parse α}
    (h : ∀ source source', pair.left.source source = pair.right.source source' →
      tandem.Step (more source) (others source')) :
    tandem.Step (Parse.sourceNumber >>= more) (Parse.sourceNumber >>= others) where
  left mark parser hlost :=
    (h parser.source parser.source (by rw [tandem.alone mark])).left mark parser hlost
  right mark parser hlost :=
    (h parser.source parser.source (by rw [tandem.alone mark])).right mark parser hlost
  both parser parser' habreast := (h _ _ (tandem.source habreast)).both parser parser' habreast

theorem orRecover {inner : Parse Stmt} (h : tandem.Step inner inner)
    (hends : ∀ parser, parser.Sound → Parse.EndsWell parser (Parse.Anyhow parser) (inner parser)) :
    tandem.Step (Parse.always (Parse.orRecover inner)) (Parse.always (Parse.orRecover inner)) := by
  refine ⟨fun mark parser hlost => .orRecover (h.left mark parser hlost),
    fun mark parser hlost => .orRecover (h.right mark parser hlost), ?_⟩
  intro parser parser' habreast
  rcases h.both parser parser' habreast with hmeet | ⟨mark, hfirst, hsecond⟩
  · have hcourse := hends parser (tandem.sound habreast).1
    rw [Parse.always, Parse.always, Parse.orRecover, Parse.orRecover]
    generalize inner parser = ended, inner parser' = ended' at hmeet hcourse
    cases hmeet with
    | ok hsame hnext => exact .inl (.ok (Pairing.matched_some.2 hsame) hnext)
    | error hsame hnext =>
        rcases tandem.recover habreast hnext hcourse.1.consumed_le hsame with hlast | hlost
        · exact .inl (.ok Pairing.matched_none hlast)
        · exact .inr hlost
  · exact .inr ⟨mark, .orRecover hfirst, .orRecover hsecond⟩

end Step

end Tandem

end Quill
