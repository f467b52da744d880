import Quill.Proofs.Parsing.Agreement
import Quill.Proofs.Tandem.Sequel

/-!
# Programs concatenate

Two texts that are read without problems are read one after the other, if the second one does not
begin with an opening bracket.  Only what can stand last in a statement has to be looked at: an
operand, the tails of an expression, a block and the arms of a branch.  There the end of the first
text and the first token of the second one come to the same (`Sequel.carries_stmt`).  Statement by
statement the first text is read to its end (`Sequel.statements_of_clear`), and from there on the
second text is read as if it began there.
-/

namespace Quill

/-! ### Statements of a text without problems -/

namespace Parse

variable {grammar : Grammar} {parser next : Parser} {result : Stmt}

theorem stmtOrRecover_of_ok (h : stmt grammar parser = .ok result next) :
    stmtOrRecover grammar parser = (some result, next) := by
  rw [stmtOrRecover, orRecover, h]

/-- A statement that is read takes a token. -/
theorem reaches_of_stmt (hgrammar : grammar.StopsAtEnd) (hsound : parser.Sound)
    (h : stmt grammar parser = .ok result next) :
    parser.Reaches next ∧ next.remaining < parser.remaining := by
  have hends := (alike_stmtWithin_self hgrammar hsound (parser.remaining + 1)).ends
  change EndsWell _ _ (stmt grammar parser) at hends
  rwa [h] at hends

end Parse

/-- If nothing is recorded of a text that is not at its end, its first statement is read. -/
theorem Parser.stmt_of_clear {grammar : Grammar} (hgrammar : grammar.StopsAtEnd) {parser : Parser}
    (hsound : parser.Sound) (hmore : parser.atEnd = false) {bound : Nat}
    (hbound : parser.remaining < bound + 1)
    (hclear : (parser.statements grammar (bound + 1)).2.recorded = []) :
    ∃ stmt next, Parse.stmt grammar parser = .ok stmt next ∧ next.recorded = [] := by
  have hunrolls : Parse.Unrolls (statementsStep grammar) (statements grammar) := fun _ => rfl
  obtain ⟨-, hreaches, hfewer⟩ := Parse.alike_orRecover hsound hmore
    (.bounded (Parse.alike_stmtWithin_self hgrammar hsound _))
  change parser.Reaches (Parse.stmtOrRecover grammar parser).2 at hreaches
  change (Parse.stmtOrRecover grammar parser).2.remaining < _ at hfewer
  rcases hfirst : Parse.stmtOrRecover grammar parser with ⟨result, last⟩
  rw [hfirst] at hreaches hfewer
  have hothers := (alike_statements hgrammar hunrolls hunrolls (hreaches.sound hsound)
    (Nat.lt_of_lt_of_le hfewer (Nat.le_of_lt_succ hbound)) (Nat.lt_succ_self _)).2.1
  have hempty : last.recorded = [] := by
    rw [statements_of_more hmore hfirst] at hclear
    have hfront := hothers.recorded_isPrefix
    rwa [hclear, List.prefix_nil] at hfront
  cases hstmt : Parse.stmt grammar parser with
  | ok stmt next =>
      rw [Parse.stmtOrRecover_of_ok hstmt] at hfirst
      cases hfirst
      exact ⟨stmt, _, rfl, hempty⟩
  | error diagnostic next =>
      rw [Parse.stmtOrRecover, Parse.orRecover, hstmt] at hfirst
      cases hfirst
      exact absurd hempty (recorded_recover_record_ne_nil _ _ _)

namespace Sequel

open Parse Pairing

variable {grammar : Grammar} {bytes : Nat} {front text joined : TokenStream}
  (h : Sequel grammar bytes front text joined)

namespace Carries

variable {h}

/-! ### Expressions -/

section Expressions

variable {sub : ExprReader} (hstep : ∀ level, h.tandem.Step (sub level) (sub level))
  (hsteady : SteadyReader sub) (hstuck : ∀ level, h.Stuck (sub level))
  (hsub : ∀ level, h.Carries (sub level) (sub level))

include hstep

theorem subscript (hstuck : ∀ level, h.Stuck (sub level)) {base base' : Expr}
    (hbase : Matched ⟨.still, .still⟩ base base') :
    h.Carries (subscript sub base) (subscript sub base') := by
  refine after .advance (fun _ => .bind (hstuck .lowest) _) ?_
  intro _ _ _
  refine after (hstep .lowest) (fun _ => .expect (by decide) _) ?_
  intro index index' hindex
  refine expect (by decide) fun closing closing' hclosing => ?_
  exact .pure (matched_subscript.2 ⟨hbase, hindex, hbase.span.spanning hclosing.tokenSpan⟩)

include hsteady

theorem call {callee callee' : Expr} (hcallee : Matched ⟨.still, .still⟩ callee callee') :
    h.Carries (call sub callee) (call sub callee') := by
  have hnamed := hcallee.isName
  cases callee with
  | name ident span =>
      obtain ⟨span', rfl, hspan⟩ := hcallee.eq_name
      have hitems : h.tandem.Step (Parse.bounded (arguments sub)) (Parse.bounded (arguments sub)) :=
        .bounded (settled_arguments hsteady) (settled_arguments hsteady) (.arguments hstep)
      refine after .advance
        (fun _ => .either (.pure matched_nil) hitems fun _ => .expect (by decide) _) ?_
      intro _ _ _
      refine either (.pure matched_nil) hitems (fun _ => .expect (by decide) _) ?_
      intro items items' hitems
      refine expect (by decide) fun closing closing' hclosing => ?_
      exact .pure (matched_call.2 ⟨rfl, hspan, hitems, hspan.spanning hclosing.tokenSpan⟩)
  | _ =>
      cases callee' with
      | name => cases hnamed
      | _ => exact .unexpected

include hstuck

theorem operand (form : OperandForm) : h.Carries (operand sub form) (operand sub form) := by
  cases form with
  | atom =>
      change h.Carries Parse.atom Parse.atom
      rw [atom_eq_glance]
      exact glance Tandem.Step.uniform_judgeAtom fun _ _ hend _ => .inl (judgeAtom_of_end hend)
  | array =>
      have hitems : h.tandem.Step (Parse.bounded (elements sub)) (Parse.bounded (elements sub)) :=
        .bounded (settled_elements hsteady) (settled_elements hsteady) (.elements hstep)
      refine after .advance (fun _ => .after hitems fun _ => .expect (by decide) _) ?_
      intro opening opening' hopening
      refine after hitems (fun _ => .expect (by decide) _) ?_
      intro items items' hitems
      refine expect (by decide) fun closing closing' hclosing => ?_
      exact .pure (matched_array.2 ⟨hitems, hopening.tokenSpan.spanning hclosing.tokenSpan⟩)
  | group =>
      refine after .advance (fun _ => .bind (hstuck .lowest) _) ?_
      intro _ _ _
      refine after (hstep .lowest) (fun _ => .expect (by decide) _) ?_
      intro expr expr' hexpr
      exact expect (by decide) fun _ _ _ => .pure hexpr

include hsub

theorem tail (power : BindingPower) (form : TailForm) {left left' : Expr}
    (hleft : Matched ⟨.still, .still⟩ left left') :
    h.Carries (tail sub left power form) (tail sub left' power form) := by
  cases form with
  | binary =>
      change h.Carries (binary sub left power) (binary sub left' power)
      rw [binary_eq_glance, binary_eq_glance]
      refine after (.glance Tandem.Step.uniform_judgeOperator) (fun _ => .bind (hstuck power) _) ?_
      intro operator operator' hoperator
      obtain rfl := matched_iff_eq.1 hoperator
      refine (hsub power).bind fun right right' hright => ?_
      exact .pure (matched_binary.2 ⟨rfl, hleft, hright, hleft.span.spanning hright.span⟩)
  | assignment =>
      refine after .advance (fun _ => .bind (hstuck .lowest) _) ?_
      intro _ _ _
      refine (hsub .lowest).bind fun value value' hvalue => ?_
      exact .pure (matched_assign.2 ⟨hleft, hvalue, hleft.span.spanning hvalue.span⟩)
  | subscript => exact subscript hstep hstuck hleft
  | call => exact call hstep hsteady hleft

theorem tails (level : BindingPower) (bound : Nat) {left left' : Expr}
    (hleft : Matched ⟨.still, .still⟩ left left') :
    h.Carries (tails grammar sub level bound left) (tails grammar sub level bound left') := by
  induction bound generalizing left left' with
  | zero => exact .unexpected
  | succ bound ih =>
      refine currentKind ?_ (.inr ?_)
      · intro kind
        rw [hleft.isName]
        split
        · exact .pure hleft
        · split
          · exact .pure hleft
          · next power form _ _ =>
              refine (tail hstep hsteady hstuck hsub power form hleft).bind ?_
              intro longer longer' hlonger
              exact ih hlonger
      · -- neither the end nor the token at the seam goes on with an expression
        simp only [h.stops.tail, h.separates.tail]
        exact .pure hleft

end Expressions

end Carries

/-! ### Whole expressions -/

theorem stuck_exprWithin (bound : Nat) (level : BindingPower) :
    h.Stuck (exprWithin grammar bound level) := by
  cases bound with
  | zero => exact .unexpected
  | succ bound =>
      change h.Stuck (exprStep grammar (exprWithin grammar bound) level)
      rw [exprStep_eq_glance]
      exact .bind (.glance fun _ hend => judgeOperand_of_end hend h.stops) _

theorem stuck_expr (level : BindingPower) : h.Stuck (expr grammar level) :=
  .bounded fun bound => h.stuck_exprWithin bound level

theorem carries_exprWithin (bound : Nat) (level : BindingPower) :
    h.Carries (exprWithin grammar bound level) (exprWithin grammar bound level) := by
  induction bound generalizing level with
  | zero => exact .unexpected
  | succ bound ih =>
      have hstep : ∀ level, h.tandem.Step (exprWithin grammar bound level)
          (exprWithin grammar bound level) := .exprWithin h.stops bound
      have hsteady := steady_exprWithin h.stops bound
      have hstuck := h.stuck_exprWithin bound
      change h.Carries (exprStep grammar (exprWithin grammar bound) level)
        (exprStep grammar (exprWithin grammar bound) level)
      rw [exprStep_eq_glance]
      refine Carries.bind (.glance (Tandem.Step.uniform_judgeOperand grammar)
        fun _ _ hend _ => .inl (judgeOperand_of_end hend h.stops)) ?_
      intro form form' hform
      obtain rfl := matched_iff_eq.1 hform
      refine (Carries.operand hstep hsteady hstuck form).bind fun left left' hleft => ?_
      exact .bounded (settled_tails h.stops hsteady level left)
        (settled_tails h.stops hsteady level left')
        fun steps => .tails hstep hsteady hstuck ih level steps hleft

theorem carries_expr (level : BindingPower) :
    h.Carries (expr grammar level) (expr grammar level) :=
  .bounded (settled_exprWithin h.stops level) (settled_exprWithin h.stops level)
    fun bound => h.carries_exprWithin bound level

/-! ### Statements -/

section Statements

variable {sub : StmtReader} (hstep : h.tandem.Step (always sub) (always sub))
  (hsteady : SteadyStmtReader sub)

theorem stuck_block (sub : StmtReader) : h.Stuck (block sub) := .expect (by decide) _

include hstep hsteady

theorem carries_block : h.Carries (block sub) (block sub) := by
  refine .expect (by decide) fun opening opening' hopening => ?_
  refine .after (.bounded (settled_body hsteady) (settled_body hsteady) (.body hstep))
    (fun _ => .expect (by decide) _) ?_
  intro statements statements' hstatements
  refine .expect (by decide) fun closing closing' hclosing => ?_
  exact .pure (matched_block.2 ⟨hstatements, hopening.tokenSpan.spanning hclosing.tokenSpan⟩)

theorem carries_function : h.Carries (function sub) (function sub) := by
  refine .after .advance (fun _ => .expect (by decide) _) ?_
  intro opening opening' hopening
  refine .expect (by decide) fun name name' hname => ?_
  refine .expect (by decide) fun _ _ _ => ?_
  refine .either (.pure matched_nil) (.bounded settled_parameters settled_parameters .parameters)
    (fun _ => .expect (by decide) _) ?_
  intro params params' hparams
  obtain rfl := matched_iff_eq.1 hparams
  refine .expect (by decide) fun closing closing' hclosing => ?_
  have hvoid : Matched ⟨.still, .still⟩ (Ty.void, closing.span) (Ty.void, closing'.span) :=
    matched_pair.2 ⟨rfl, hclosing.tokenSpan⟩
  refine .either (.pure hvoid) .annotations (fun _ => .bind (h.stuck_block sub) _) ?_
  rintro ⟨type, last⟩ ⟨type', last'⟩ htype
  obtain ⟨hsame, hlast⟩ := matched_pair.1 htype
  obtain rfl := matched_iff_eq.1 hsame
  refine (h.carries_block hstep hsteady).bind fun statements statements' hstatements => ?_
  refine .numbered fun source => ?_
  rw [hname.value]
  exact .pure (matched_function rfl hopening.tokenSpan hstatements
    (hopening.tokenSpan.spanning hlast))

theorem carries_arm : h.Carries (arm grammar sub) (arm grammar sub) := by
  refine .after .advance (fun _ => .bind (h.stuck_expr .lowest) _) ?_
  intro opening opening' hopening
  refine .after (.expr h.stops .lowest) (fun _ => .bind (h.stuck_block sub) _) ?_
  intro condition condition' hcondition
  refine (h.carries_block hstep hsteady).bind fun statements statements' hstatements => ?_
  exact .pure (matched_arm.2 ⟨hcondition, hstatements,
    hopening.tokenSpan.spanning hcondition.span⟩)

theorem carries_otherArms (bound : Nat) :
    h.Carries (otherArms grammar sub bound) (otherArms grammar sub bound) := by
  induction bound with
  | zero => exact .unexpected
  | succ bound ih =>
      -- neither the end nor the token at the seam goes on with a branch
      have helse : h.Carries (accept .elseWord) (accept .elseWord) := by
        rw [accept_eq_glance]
        refine .glance (Tandem.Step.uniform_judgeAccept _) fun token token' hend hseam =>
          .inr ⟨false, ?_⟩
        simp [judgeAccept, hend, hseam, h.separates.other]
      refine helse.bind fun taken taken' htaken => ?_
      obtain rfl := matched_iff_eq.1 htaken
      split
      · refine .currentKind ?_ (.inl (.bind (h.stuck_block sub) _))
        intro kind
        split
        · refine (h.carries_arm hstep hsteady).bind fun first first' hfirst => ?_
          refine ih.bind ?_
          rintro ⟨others, otherwise⟩ ⟨others', otherwise'⟩ hrest
          obtain ⟨hothers, hotherwise⟩ := matched_pair.1 hrest
          exact .pure (matched_pair.2 ⟨matched_cons.2 ⟨hfirst, hothers⟩, hotherwise⟩)
        · refine (h.carries_block hstep hsteady).bind fun otherwise otherwise' hotherwise => ?_
          exact .pure (matched_pair.2 ⟨matched_nil, matched_some.2 hotherwise⟩)
      · exact .pure (matched_pair.2 ⟨matched_nil, matched_none⟩)

theorem carries_stmtOf (form : StmtForm) :
    h.Carries (stmtOf grammar sub form) (stmtOf grammar sub form) := by
  cases form with
  | function => exact h.carries_function hstep hsteady
  | ret =>
      refine .after .advance (fun _ => .bind (h.stuck_expr .lowest) _) ?_
      intro opening opening' hopening
      refine (h.carries_expr .lowest).bind fun value value' hvalue => ?_
      exact .pure (matched_ret.2 ⟨hvalue, hopening.tokenSpan.spanning hvalue.span⟩)
  | bind =>
      refine .after .advance (fun _ => .expect (by decide) _) ?_
      intro opening opening' hopening
      refine .expect (by decide) fun name name' hname => ?_
      refine .expect (by decide) fun _ _ _ => ?_
      refine (h.carries_expr .lowest).bind fun value value' hvalue => ?_
      exact .pure (matched_bind.2 ⟨hname.value, hvalue,
        hopening.tokenSpan.spanning hvalue.span⟩)
  | branch =>
      refine (h.carries_arm hstep hsteady).bind fun first first' hfirst => ?_
      have hsettled := settled_otherArms h.stops hsteady
      refine (Carries.bounded hsettled hsettled (h.carries_otherArms hstep hsteady)).bind ?_
      rintro ⟨others, otherwise⟩ ⟨others', otherwise'⟩ hrest
      obtain ⟨hothers, hotherwise⟩ := matched_pair.1 hrest
      exact .pure (matched_branch.2 ⟨hfirst, hothers, hotherwise⟩)
  | loop =>
      refine (h.carries_arm hstep hsteady).bind ?_
      rintro ⟨condition, statements, span⟩ ⟨condition', statements', span'⟩ honly
      exact .pure (matched_loop.2 (matched_arm.1 honly))
  | range =>
      refine .after .advance (fun _ => .expect (by decide) _) ?_
      intro opening opening' hopening
      refine .expect (by decide) fun counter counter' hcounter => ?_
      refine .expect (by decide) fun _ _ _ => ?_
      refine .after (.expr h.stops .lowest) (fun _ => .expect (by decide) _) ?_
      intro lower lower' hlower
      refine .expect (by decide) fun _ _ _ => ?_
      refine .after (.expr h.stops .lowest) (fun _ => .bind (h.stuck_block sub) _) ?_
      intro upper upper' hupper
      refine (h.carries_block hstep hsteady).bind fun statements statements' hstatements => ?_
      exact .pure (matched_range.2 ⟨hcounter.value, hlower, hupper, hstatements,
        hopening.tokenSpan.spanning hupper.span⟩)
  | block =>
      refine (h.carries_block hstep hsteady).bind fun inner inner' hinner => ?_
      exact .pure (matched_blockStmt.2 hinner)

end Statements

theorem carries_stmtWithin (bound : Nat) :
    h.Carries (stmtWithin grammar bound) (stmtWithin grammar bound) := by
  cases bound with
  | zero => exact .unexpected
  | succ bound =>
      have hinner : h.tandem.Step (always (orRecover (stmtWithin grammar bound)))
          (always (orRecover (stmtWithin grammar bound))) :=
        (Tandem.Step.stmtWithin h.stops bound).orRecover (ends_stmtWithin h.stops bound)
      refine .currentKind ?_ (.inl ?_)
      · intro kind
        split
        · next form _ => exact h.carries_stmtOf hinner (steady_orRecover h.stops bound) form
        · refine (h.carries_expr .lowest).bind fun value value' hvalue => ?_
          exact .pure (matched_expr.2 hvalue)
      · simp only [h.stops.stmt]
        exact .bind (h.stuck_expr .lowest) _

theorem carries_stmt : h.Carries (stmt grammar) (stmt grammar) :=
  .bounded (settled_stmtWithin h.stops) (settled_stmtWithin h.stops) h.carries_stmtWithin

/-! ### Whole texts -/

/-- A statement that is read of the first text alone is read in front of the second one as well. -/
theorem stmt_of_ok {parser parser' next : Parser} {stmt : Stmt}
    (habreast : h.tandem.abreast parser parser')
    (hstmt : Parse.stmt grammar parser = .ok stmt next) (hclear : next.recorded = []) :
    ∃ next', Parse.stmt grammar parser' = .ok stmt next' ∧ h.tandem.abreast next next' := by
  have hruns := h.carries_stmt.both parser parser' habreast
  rw [hstmt] at hruns
  rcases hruns with hmeet | hfails
  · generalize Parse.stmt grammar parser' = ended at hmeet ⊢
    cases hmeet with
    | ok hsame hnext =>
        have hequal : stmt.moved .still = Stmt.moved .still _ := hsame
        rw [Stmt.moved_still, Stmt.moved_still] at hequal
        exact ⟨_, by rw [hequal], hnext⟩
  · exact absurd hclear hfails

/-- A run over both texts that comes to the end of the first one stands in front of the second one
as if it began there. -/
theorem trails_of_atEnd {parser parser' : Parser} (habreast : h.tandem.abreast parser parser')
    (hend : parser.atEnd = true) :
    Parser.Trails bytes front text joined [] (.start text parser.source) parser' := by
  obtain ⟨hlockstep, hle⟩ := habreast
  have hplace : parser.consumed = front.scans.length := by
    have hnone := (hlockstep.on.sound h.endsFront).atEnd_iff.1 hend
    rw [hlockstep.on.remaining] at hnone
    omega
  refine ⟨.start text _, hlockstep.on', ?_, hlockstep.source, ?_⟩
  · rw [← hlockstep.place, hplace]
    exact (Nat.zero_add _).symm
  · rw [hlockstep.clear', Parser.recorded_start h.quietText]
    rfl

/-- The statements of a text without problems are read in front of the second text as well, and the
rest is read from the start of the second text on. -/
theorem statements_of_clear (bound : Nat) {parser parser' : Parser}
    (habreast : h.tandem.abreast parser parser') (hbound : parser.remaining < bound)
    (hclear : (parser.statements grammar bound).2.recorded = []) :
    ∃ last, Parser.Trails bytes front text joined [] (.start text parser.source) last ∧
      parser'.statements grammar (parser'.remaining + 1) =
        ((parser.statements grammar bound).1 ++ (last.statements grammar (last.remaining + 1)).1,
          (last.statements grammar (last.remaining + 1)).2) := by
  induction bound generalizing parser parser' with
  | zero => omega
  | succ bound ih =>
      obtain ⟨hsound, hsound'⟩ := h.tandem.sound habreast
      cases hend : parser.atEnd with
      | true =>
          have hnone : parser.statements grammar (bound + 1) = ([], parser) := by
            rw [Parser.statements, if_pos hend]
          refine ⟨parser', h.trails_of_atEnd habreast hend, ?_⟩
          rw [hnone]
          rfl
      | false =>
          obtain ⟨stmt, next, hstmt, hempty⟩ :=
            Parser.stmt_of_clear h.stops hsound hend hbound hclear
          obtain ⟨next', hstmt', hnext⟩ := h.stmt_of_ok habreast hstmt hempty
          obtain ⟨hreaches, hfewer⟩ := reaches_of_stmt h.stops hsound hstmt
          obtain ⟨-, hfewer'⟩ := reaches_of_stmt h.stops hsound' hstmt'
          have hfirst := Parser.statements_of_more hend (stmtOrRecover_of_ok hstmt) bound
          have hfirst' := Parser.statements_of_more (h.atEnd_eq_false habreast hend)
            (stmtOrRecover_of_ok hstmt') parser'.remaining
          rw [hfirst] at hclear
          obtain ⟨last, htrails, hrest⟩ := ih hnext (by omega) hclear
          rw [hreaches.source_eq] at htrails
          refine ⟨last, htrails, ?_⟩
          rw [hfirst, hfirst', Parser.statements_settled h.stops (h.tandem.sound hnext).2 hfewer',
            hrest]
          rfl

end Sequel

/-- The statements of two texts without problems are read one after the other. -/
theorem Sequel.statements_append {bytes : Nat} {front text joined : TokenStream}
    (h : Sequel .standard bytes front text joined) {source : Nat} :
    let first := Parser.start front source
    let second := Parser.start text source
    let whole := Parser.start joined source
    (first.statements .standard (first.remaining + 1)).2.recorded = [] →
    (second.statements .standard (second.remaining + 1)).2.recorded = [] →
    (whole.statements .standard (whole.remaining + 1)).1 =
        (first.statements .standard (first.remaining + 1)).1 ++
          (second.statements .standard (second.remaining + 1)).1.map (·.moved (.shift bytes)) ∧
      (whole.statements .standard (whole.remaining + 1)).2.recorded = [] := by
  intro first second whole hfirst hsecond
  have habreast : h.tandem.abreast first whole :=
    ⟨.start h.quietFront h.quiet source, Nat.zero_le _⟩
  obtain ⟨last, htrails, hwhole⟩ :=
    h.statements_of_clear (first.remaining + 1) habreast (Nat.lt_succ_self _) hfirst
  have hleft : last.remaining = second.remaining := htrails.remaining h.toSeam
  obtain ⟨hstatements, hrecorded⟩ := h.statements_of_trails htrails (second.remaining + 1)
  rw [hleft] at hwhole
  rw [hwhole]
  refine ⟨congrArg (_ ++ ·) hstatements, ?_⟩
  change (last.statements .standard (second.remaining + 1)).2.recorded = []
  rw [hrecorded]
  change [] ++ (second.statements .standard (second.remaining + 1)).2.recorded.map _ = []
  rw [hsecond]
  rfl

/-! ### The first token of a text -/

/-- Where a token opens no statement and no expression, no statement is read. -/
theorem Parse.stmt_of_no_form {grammar : Grammar} {parser : Parser}
    (hstmt : grammar.stmt parser.current.kind = none)
    (hoperand : grammar.operand parser.current.kind = none) :
    stmt grammar parser = .error (.of .expectedExpression parser.current.span) parser := by
  have hexpr : expr grammar .lowest parser =
      .error (.of .expectedExpression parser.current.span) parser := by
    change exprStep grammar (exprWithin grammar parser.remaining) .lowest parser = _
    rw [exprStep_eq_glance]
    change EStateM.bind (glance (judgeOperand grammar)) _ parser = _
    rw [EStateM.bind, glance, judgeOperand, hoperand]
    rfl
  rw [stmt, bounded, stmtWithin]
  change EStateM.bind currentKind _ parser = _
  rw [EStateM.bind, currentKind]
  simp only [hstmt]
  change EStateM.bind (expr grammar .lowest) _ parser = _
  rw [EStateM.bind, hexpr]

/-- The first token of a text without problems opens a statement or an expression, if there is
any. -/
theorem Parser.opens_of_clear {grammar : Grammar} (hgrammar : grammar.StopsAtEnd) {parser : Parser}
    (hsound : parser.Sound)
    (hclear : (parser.statements grammar (parser.remaining + 1)).2.recorded = []) :
    parser.current.kind = .endOfInput ∨ (grammar.stmt parser.current.kind).isSome ∨
      (grammar.operand parser.current.kind).isSome := by
  cases hend : parser.atEnd with
  | true => exact .inl (beq_iff_eq.1 hend)
  | false =>
      right
      obtain ⟨stmt, next, hread, -⟩ :=
        stmt_of_clear hgrammar hsound hend (Nat.lt_succ_self _) hclear
      by_contra hnone
      simp only [not_or, Option.not_isSome_iff_eq_none] at hnone
      rw [Parse.stmt_of_no_form hnone.1 hnone.2] at hread
      cases hread

/-- What opens a statement or an expression goes on with none, apart from opening brackets. -/
theorem Grammar.standard_separates {kind : TokenKind}
    (hopens : kind = .endOfInput ∨ (standard.stmt kind).isSome ∨ (standard.operand kind).isSome)
    (hparen : kind ≠ .openParen) (hbracket : kind ≠ .openBracket) : standard.Separates kind := by
  constructor <;> cases kind <;> simp_all [standard]

/-- Two texts that are read without problems, where the second one does not begin with an opening
bracket. -/
theorem Sequel.ofTexts {file first second : String} {source : Nat}
    (hfirst : (parse file first source).diagnostics = [])
    (hsecond : (parse file second source).diagnostics = [])
    (hparen : ((TokenStream.ofText file second).tokenAt 0).kind ≠ .openParen)
    (hbracket : ((TokenStream.ofText file second).tokenAt 0).kind ≠ .openBracket) :
    Sequel .standard (Text.byteLength first.toList + 1) (.ofText file first) (.ofText file second)
      (.ofText file (first ++ "\n" ++ second)) where
  toSeam := .ofTexts (diagnostics_ofText_of_parse hfirst) (diagnostics_ofText_of_parse hsecond)
  quietFront := TokenStream.quiet_of_diagnostics (diagnostics_ofText_of_parse hfirst)
  endsFront := TokenStream.ofText_ends file first
  stops := Grammar.standard_stopsAtEnd
  separates := by
    have hon : (Parser.ofText file second source).On (.ofText file second) := .start _ source
    have hopens := Parser.opens_of_clear Grammar.standard_stopsAtEnd
      (Parser.sound_ofText file second source) hsecond
    rw [hon.current] at hopens
    exact Grammar.standard_separates hopens hparen hbracket

/-- Programs concatenate.  Let two texts be read without problems, where the first token of the
second one is neither an opening parenthesis nor an opening square bracket.  With a newline between
them they are read without problems, as the statements of the first text and behind them those of
the second one, moved on by the bytes of the first text and the newline. -/
theorem parse_append (file first second : String) (source : Nat)
    (hfirst : (parse file first source).diagnostics = [])
    (hsecond : (parse file second source).diagnostics = [])
    (hparen : ((TokenStream.ofText file second).tokenAt 0).kind ≠ .openParen)
    (hbracket : ((TokenStream.ofText file second).tokenAt 0).kind ≠ .openBracket) :
    parse file (first ++ "\n" ++ second) source =
      ⟨(parse file first source).statements ++ (parse file second source).statements.map
        (·.moved (.shift (Text.byteLength first.toList + 1))), []⟩ := by
  have hsequel := Sequel.ofTexts hfirst hsecond hparen hbracket
  obtain ⟨hstatements, hrecorded⟩ := hsequel.statements_append hfirst hsecond
  unfold parse Parser.ofText
  rw [Parsed.mk.injEq]
  exact ⟨hstatements, hrecorded⟩

/-- An opening square bracket goes on with the statement in front of it. -/
example : (parse "a" ("x" ++ "\n" ++ "[0]") 0).statements.length = 1 := by decide +kernel

/-- An assignment with a call at its end, in front of a loop. -/
theorem parse_append_loop :
    let first := "fn f(n: int) { n }\nx = f(1) // a call"
    let second := "while x < 3 { x = x + 1 }\n[x]"
    (parse "a" first 0).diagnostics = [] ∧ (parse "a" second 0).diagnostics = [] ∧
    ((TokenStream.ofText "a" second).tokenAt 0).kind ≠ .openParen ∧
    ((TokenStream.ofText "a" second).tokenAt 0).kind ≠ .openBracket ∧
    parse "a" (first ++ "\n" ++ second) 0 =
      ⟨(parse "a" first 0).statements ++
        (parse "a" second 0).statements.map (·.moved (.shift 38)), []⟩ := by
  have hfirst : (parse "a" "fn f(n: int) { n }\nx = f(1) // a call" 0).diagnostics = [] := by
    decide +kernel
  have hsecond : (parse "a" "while x < 3 { x = x + 1 }\n[x]" 0).diagnostics = [] := by
    decide +kernel
  have hparen : ((TokenStream.ofText "a" "while x < 3 { x = x + 1 }\n[x]").tokenAt 0).kind ≠
      .openParen := by decide +kernel
  have hbracket : ((TokenStream.ofText "a" "while x < 3 { x = x + 1 }\n[x]").tokenAt 0).kind ≠
      .openBracket := by decide +kernel
  exact ⟨hfirst, hsecond, hparen, hbracket,
    parse_append "a" "fn f(n: int) { n }\nx = f(1) // a call" "while x < 3 { x = x + 1 }\n[x]" 0
      hfirst hsecond hparen hbracket⟩

end Quill
