import Quill.Parser.Program
import Quill.Proofs.Parsing.Expressions

/-!
# Reading statements ends

A statement that is given up costs at least one token, so the loop over the statements of a block
and the loop over those of a text come to an end also when nothing in them can be read.  All other
recursions of statements are cut off at bounds that are never used up, like those of expressions.
-/

namespace Quill

namespace Parse

variable {parser : Parser}

/-- Reading a statement or giving it up takes a token in either case. -/
theorem alike_orRecover {first second : Parse Stmt} (hsound : parser.Sound)
    (hmore : parser.atEnd = false) (h : Alike first second parser (Takes parser)) :
    orRecover first parser = orRecover second parser ∧
      parser.Reaches (orRecover first parser).2 ∧
      (orRecover first parser).2.remaining < parser.remaining := by
  have hpos := hsound.remaining_pos hmore
  have hends := h.ends
  rw [orRecover, orRecover, ← h.same]
  refine ⟨rfl, ?_⟩
  cases heq : first parser with
  | ok stmt next =>
      rw [heq] at hends
      exact hends
  | error diagnostic next =>
      rw [heq] at hends
      have hnoted : parser.Reaches (next.record diagnostic) := .note hends.1 hends.2
      have hsum := hnoted.consumed_add_remaining hsound
      have hprogress := Parser.consumed_lt_recover (hnoted.sound hsound) hnoted.consumed_le (by
        intro hsame
        apply (hnoted.sound hsound).atEnd_of_remaining_pos
        omega)
      have hreaches := hnoted.trans (Parser.reaches_recover (hnoted.sound hsound) parser.consumed)
      have htotal := hreaches.consumed_add_remaining hsound
      refine ⟨hreaches, ?_⟩
      change ((next.record diagnostic).recover parser.consumed).remaining < parser.remaining
      omega

/-- Two readers of statements are alike at all states with fewer than `limit` tokens left. -/
def StmtReadersAlike (limit : Nat) (sub other : StmtReader) : Prop :=
  ∀ next, next.Sound → next.remaining < limit → next.atEnd = false →
    sub next = other next ∧ next.Reaches (sub next).2 ∧ (sub next).2.remaining < next.remaining

/-! ### The steps of the recursions -/

/-- One step of reading the statements of a block; the other statements are left to `others`. -/
def bodyStep (sub : StmtReader) (others : Parse (List Stmt)) : Parse (List Stmt) := do
  let kind ← currentKind
  if kind == .closeCurly || kind == .endOfInput then
    return []
  else
    let first ← always sub
    let others ← others
    return first.toList ++ others

/-- One step of reading parameters; the other parameters are left to `others`. -/
def parametersStep (others : Parse (List Parameter)) : Parse (List Parameter) := do
  let name ← expect .identifier
  let _ ← expect .colon
  let (type, _) ← annotation
  if ← accept .comma then
    let others ← others
    return ⟨name.value, type⟩ :: others
  else
    return [⟨name.value, type⟩]

/-- One step of reading the arms of a branch behind its first one; the other arms are left to
`others`. -/
def otherArmsStep (grammar : Grammar) (sub : StmtReader)
    (others : Parse (List (Arm Stmt) × Option (Block Stmt))) :
    Parse (List (Arm Stmt) × Option (Block Stmt)) := do
  if ← accept .elseWord then
    if (← currentKind) == .ifWord then
      let first ← arm grammar sub
      let (others, otherwise) ← others
      return (first :: others, otherwise)
    else
      let otherwise ← block sub
      return ([], some otherwise)
  else
    return ([], none)

/-- One step of reading a statement; the statements of its blocks are left to `inner`. -/
def stmtStep (grammar : Grammar) (inner : Parse Stmt) : Parse Stmt := do
  match grammar.stmt (← currentKind) with
  | some form => stmtOf grammar (orRecover inner) form
  | none =>
    let value ← expr grammar .lowest
    return .expr value

/-! ### Parts of statements -/

/-- Parameters are read alike under all bounds that exceed the number of tokens left. -/
theorem alike_parameters {first second : Nat → Parse (List Parameter)}
    (hfirst : Unrolls parametersStep first) (hsecond : Unrolls parametersStep second)
    {bound bound' : Nat} (hsound : parser.Sound) (hbound : parser.remaining < bound)
    (hbound' : parser.remaining < bound') :
    Alike (first bound) (second bound') parser (Anyhow parser) := by
  refine .of_round ?_ hfirst hsecond hsound (Nat.lt_succ_self _) hbound hbound'
  intro rest rest' parser hparser _ hrest
  apply Alike.bind hparser (.expect hparser (by decide))
  intro name next hnext _ _
  apply Alike.bind hnext (.expect hnext (by decide))
  intro _ behind hbehind _ _
  apply Alike.bind hbehind (alike_annotation_self hbehind)
  intro type typed htyped _ _
  apply Alike.bind htyped (.accept htyped (by decide))
  intro taken last hlast _ _
  split
  · apply Alike.bind hlast (hrest last hlast (by omega))
    intro _ _ _ _ _
    exact .pure trivial
  · exact .pure trivial

section Parts

variable {sub other : StmtReader} {limit : Nat}

/-- The statements of a block are read alike under all bounds that exceed the number of tokens
left. -/
theorem alike_body (hsub : StmtReadersAlike limit sub other)
    {first second : Nat → Parse (List Stmt)} (hfirst : Unrolls (bodyStep sub) first)
    (hsecond : Unrolls (bodyStep other) second) {bound bound' : Nat} (hsound : parser.Sound)
    (hlimit : parser.remaining < limit) (hbound : parser.remaining < bound)
    (hbound' : parser.remaining < bound') :
    Alike (first bound) (second bound') parser (Anyhow parser) := by
  refine .of_round ?_ hfirst hsecond hsound hlimit hbound hbound'
  intro rest rest' parser hparser hless hrest
  apply Alike.bind hparser .currentKind
  rintro kind _ - - ⟨rfl, rfl⟩
  split
  · exact .pure trivial
  · next hkind =>
      have hmore : parser.atEnd = false := by
        rw [Bool.or_eq_true, not_or] at hkind
        exact Bool.eq_false_iff.2 hkind.2
      obtain ⟨hsame, hreaches, htakes⟩ := hsub parser hparser hless hmore
      have hfirst : Alike (always sub) (always other) parser (Takes parser) := by
        refine ⟨?_, hreaches, htakes⟩
        rw [always, always, hsame]
      apply Alike.bind hparser hfirst
      intro _ next hnext _ hfewer
      apply Alike.bind hnext (hrest next hnext hfewer)
      intro _ _ _ _ _
      exact .pure trivial

/-- A block takes a token.  Its statements are read behind that token. -/
theorem alike_block (hsub : StmtReadersAlike limit sub other) (hsound : parser.Sound)
    (hlimit : parser.remaining ≤ limit) :
    Alike (block sub) (block other) parser (Takes parser) := by
  apply Alike.bind hsound (.expect hsound (by decide))
  intro opening next hnext _ htakes
  have hbody : Alike (body sub (next.remaining + 1)) (body other (next.remaining + 1)) next
      (Anyhow next) :=
    alike_body hsub (fun _ => rfl) (fun _ => rfl) hnext (by omega) (by omega) (by omega)
  apply Alike.bind hnext (.bounded hbody)
  intro statements last hlast _ _
  apply Alike.bind hlast (.expect hlast (by decide))
  intro closing final _ _ _
  exact .pure (by omega)

/-- A function declaration takes a token. -/
theorem alike_function (hsub : StmtReadersAlike parser.remaining sub other) (hsound : parser.Sound)
    (hmore : parser.atEnd = false) :
    Alike (function sub) (function other) parser (Takes parser) := by
  apply Alike.bind hsound (.advance hsound hmore)
  intro opening next hnext _ htakes
  apply Alike.bind hnext (.expect hnext (by decide))
  intro name named hnamed _ _
  apply Alike.bind hnamed (.expect hnamed (by decide))
  intro _ inside hinside _ _
  apply Alike.bind hinside .currentKind
  rintro kind _ - - ⟨rfl, rfl⟩
  apply Alike.either (Anyhow inside) hinside
  · exact fun _ => .pure trivial
  · intro _
    exact .bounded (alike_parameters (fun _ => rfl) (fun _ => rfl) hinside (by omega) (by omega))
  · intro params listed hlisted _ _
    apply Alike.bind hlisted (.expect hlisted (by decide))
    intro closing behind hbehind _ _
    apply Alike.bind hbehind .currentKind
    rintro kind _ - - ⟨rfl, rfl⟩
    apply Alike.either (Anyhow behind) hbehind
    · exact fun _ => .pure trivial
    · exact fun _ => (alike_annotation_self hbehind).mono fun _ _ _ _ => trivial
    · intro type typed htyped _ _
      apply Alike.bind htyped (alike_block hsub htyped (by omega))
      intro statements last hlast _ _
      apply Alike.bind hlast .sourceNumber
      rintro source _ - - rfl
      exact .pure (by omega)

end Parts

section Whole

variable {grammar : Grammar} (hgrammar : grammar.StopsAtEnd) {sub other : StmtReader}

include hgrammar

/-- A word with a condition and a block takes a token. -/
theorem alike_arm {limit : Nat} (hsub : StmtReadersAlike limit sub other) (hsound : parser.Sound)
    (hlimit : parser.remaining ≤ limit) (hmore : parser.atEnd = false) :
    Alike (arm grammar sub) (arm grammar other) parser (Takes parser) := by
  apply Alike.bind hsound (.advance hsound hmore)
  intro opening next hnext _ _
  apply Alike.bind hnext (alike_expr hgrammar hnext .lowest)
  intro condition behind hbehind _ _
  apply Alike.bind hbehind (alike_block hsub hbehind (by omega))
  intro statements last _ _ _
  exact .pure (by omega)

/-- The arms of a branch are read alike under all bounds that exceed the number of tokens left. -/
theorem alike_otherArms {limit : Nat} (hsub : StmtReadersAlike limit sub other)
    {first second : Nat → Parse (List (Arm Stmt) × Option (Block Stmt))}
    (hfirst : Unrolls (otherArmsStep grammar sub) first)
    (hsecond : Unrolls (otherArmsStep grammar other) second) {bound bound' : Nat}
    (hsound : parser.Sound) (hlimit : parser.remaining < limit)
    (hbound : parser.remaining < bound) (hbound' : parser.remaining < bound') :
    Alike (first bound) (second bound') parser (Anyhow parser) := by
  refine .of_round ?_ hfirst hsecond hsound hlimit hbound hbound'
  intro rest rest' parser hparser hless hrest
  apply Alike.bind hparser (.accept hparser (by decide))
  intro taken next hnext _ htaken
  split
  · next htrue =>
      have hfewer := htaken htrue
      apply Alike.bind hnext .currentKind
      rintro kind _ - - ⟨rfl, rfl⟩
      split
      · next hkind =>
          have hmore := Parser.atEnd_of_kind (beq_iff_eq.1 hkind) (by decide)
          apply Alike.bind hnext (alike_arm hgrammar hsub hnext (by omega) hmore)
          intro arm behind hbehind _ _
          apply Alike.bind hbehind (hrest behind hbehind (by omega))
          intro _ _ _ _ _
          exact .pure trivial
      · apply Alike.bind hnext (alike_block hsub hnext (by omega))
        intro _ _ _ _ _
        exact .pure trivial
  · exact .pure trivial

/-- A statement that opens with a word or a bracket takes a token. -/
theorem alike_stmtOf (hsub : StmtReadersAlike parser.remaining sub other) (hsound : parser.Sound)
    (hmore : parser.atEnd = false) (form : StmtForm) :
    Alike (stmtOf grammar sub form) (stmtOf grammar other form) parser (Takes parser) := by
  cases form with
  | function => exact alike_function hsub hsound hmore
  | ret =>
      apply Alike.bind hsound (.advance hsound hmore)
      intro opening next hnext _ _
      apply Alike.bind hnext (alike_expr hgrammar hnext .lowest)
      intro value last _ _ _
      exact .pure (by omega)
  | bind =>
      apply Alike.bind hsound (.advance hsound hmore)
      intro opening next hnext _ _
      apply Alike.bind hnext (.expect hnext (by decide))
      intro name named hnamed _ _
      apply Alike.bind hnamed (.expect hnamed (by decide))
      intro _ behind hbehind _ _
      apply Alike.bind hbehind (alike_expr hgrammar hbehind .lowest)
      intro value last _ _ _
      exact .pure (by omega)
  | branch =>
      apply Alike.bind hsound (alike_arm hgrammar hsub hsound (Nat.le_refl _) hmore)
      intro first next hnext _ htakes
      have harms : Alike (otherArms grammar sub (next.remaining + 1))
          (otherArms grammar other (next.remaining + 1)) next (Anyhow next) :=
        alike_otherArms hgrammar hsub (fun _ => rfl) (fun _ => rfl) hnext htakes (by omega)
          (by omega)
      apply Alike.bind hnext (.bounded harms)
      intro others last _ _ _
      exact .pure (by omega)
  | loop =>
      apply Alike.bind hsound (alike_arm hgrammar hsub hsound (Nat.le_refl _) hmore)
      intro only last _ _ htakes
      exact .pure htakes
  | range =>
      apply Alike.bind hsound (.advance hsound hmore)
      intro opening next hnext _ _
      apply Alike.bind hnext (.expect hnext (by decide))
      intro counter named hnamed _ _
      apply Alike.bind hnamed (.expect hnamed (by decide))
      intro _ behind hbehind _ _
      apply Alike.bind hbehind (alike_expr hgrammar hbehind .lowest)
      intro lower started hstarted _ _
      apply Alike.bind hstarted (.expect hstarted (by decide))
      intro _ dotted hdotted _ _
      apply Alike.bind hdotted (alike_expr hgrammar hdotted .lowest)
      intro upper stopped hstopped _ _
      apply Alike.bind hstopped (alike_block hsub hstopped (by omega))
      intro statements last _ _ _
      exact .pure (by omega)
  | block =>
      apply Alike.bind hsound (alike_block hsub hsound (Nat.le_refl _))
      intro inner last _ _ htakes
      exact .pure htakes

/-- A step of reading a statement. -/
theorem alike_stmtStep {inner inner' : Parse Stmt} (hsound : parser.Sound)
    (hinner : ∀ next, next.Sound → next.remaining < parser.remaining →
      Alike inner inner' next (Takes next)) :
    Alike (stmtStep grammar inner) (stmtStep grammar inner') parser (Takes parser) := by
  have hsub : StmtReadersAlike parser.remaining (orRecover inner) (orRecover inner') :=
    fun next hnext hless hmore => alike_orRecover hnext hmore (hinner next hnext hless)
  apply Alike.bind hsound .currentKind
  rintro kind _ - - ⟨rfl, rfl⟩
  split
  · next form hform =>
      have hmore := Parser.atEnd_of_form hgrammar.stmt hform
      exact alike_stmtOf hgrammar hsub hsound hmore form
  · apply Alike.bind hsound (alike_expr hgrammar hsound .lowest)
    intro value last _ _ htakes
    exact .pure htakes

/-- Statements are read alike under all bounds that exceed the number of tokens left. -/
theorem alike_stmtWithin {first second : Nat → Parse Stmt}
    (hfirst : Unrolls (stmtStep grammar) first) (hsecond : Unrolls (stmtStep grammar) second)
    {bound bound' : Nat} (hsound : parser.Sound) (hbound : parser.remaining < bound)
    (hbound' : parser.remaining < bound') :
    Alike (first bound) (second bound') parser (Takes parser) :=
  .of_round (fun _ _ _ hparser _ hrest => alike_stmtStep hgrammar hparser hrest) hfirst hsecond
    hsound (Nat.lt_succ_self _) hbound hbound'

/-- Reading a statement takes a token, whatever the bound. -/
theorem alike_stmtWithin_self (hsound : parser.Sound) (bound : Nat) :
    Alike (stmtWithin grammar bound) (stmtWithin grammar bound) parser (Takes parser) := by
  induction bound generalizing parser with
  | zero => exact .unexpected
  | succ bound ih => exact alike_stmtStep hgrammar hsound fun next hnext _ => ih hnext

end Whole

end Parse

namespace Parser

/-- One step of reading the statements of a text; the other statements are left to `others`. -/
def statementsStep (grammar : Grammar) (others : Parser → List Stmt × Parser) (parser : Parser) :
    List Stmt × Parser :=
  if parser.atEnd then
    ([], parser)
  else
    let first := Parse.stmtOrRecover grammar parser
    let others := others first.2
    (first.1.toList ++ others.1, others.2)

/-- The statements of a text are read to the end of the text, under all bounds that exceed the
number of tokens left. -/
theorem alike_statements {grammar : Grammar} (hgrammar : grammar.StopsAtEnd)
    {first second : Nat → Parser → List Stmt × Parser}
    (hfirst : Parse.Unrolls (statementsStep grammar) first)
    (hsecond : Parse.Unrolls (statementsStep grammar) second) {parser : Parser}
    {bound bound' : Nat} (hsound : parser.Sound) (hbound : parser.remaining < bound)
    (hbound' : parser.remaining < bound') :
    first bound parser = second bound' parser ∧
      parser.Reaches (first bound parser).2 ∧ (first bound parser).2.atEnd = true := by
  induction bound generalizing bound' parser with
  | zero => omega
  | succ bound ih =>
      cases bound' with
      | zero => omega
      | succ bound' =>
          rw [hfirst, hsecond, statementsStep, statementsStep]
          split
          · next hend => exact ⟨rfl, .refl, hend⟩
          · next hmore =>
              have hstmt := Parse.alike_orRecover hsound (Bool.eq_false_iff.2 hmore)
                (.bounded (Parse.alike_stmtWithin_self hgrammar hsound _))
              obtain ⟨-, hreaches, hfewer⟩ := hstmt
              have hothers := ih (hreaches.sound hsound)
                (Nat.lt_of_lt_of_le hfewer (Nat.le_of_lt_succ hbound))
                (Nat.lt_of_lt_of_le hfewer (Nat.le_of_lt_succ hbound'))
              obtain ⟨hsame, hlast, hend⟩ := hothers
              refine ⟨?_, hreaches.trans hlast, hend⟩
              simp only [Parse.stmtOrRecover, Parse.stmt]
              rw [hsame]

end Parser

end Quill
