import Quill.Proofs.Tandem.Rules

/-!
# The grammar in tandem

The walk over the grammar, made once for every way of comparing two runs: each reader of the
language is in step with itself.  Where a rule keeps hold of something that was read before, such as
the left operand of an operator, the two runs keep hold of matching things.
-/

namespace Quill

namespace Parse

/-! ### Bounds that are never used up -/

/-- A reader of expressions that takes a token at every state. -/
def SteadyReader (sub : ExprReader) : Prop :=
  ∀ limit, ReadersAlike limit sub sub

/-- A reader of statements that takes a token at every state. -/
def SteadyStmtReader (sub : StmtReader) : Prop :=
  ∀ limit, StmtReadersAlike limit sub sub

theorem settled_annotationWithin : Settled annotationWithin := by
  intro parser hsound bound hbound
  exact (alike_annotationWithin (fun _ => rfl) (fun _ => rfl) hsound hbound
    (Nat.lt_succ_self _)).same

theorem settled_parameters : Settled parameters := by
  intro parser hsound bound hbound
  exact (alike_parameters (fun _ => rfl) (fun _ => rfl) hsound hbound (Nat.lt_succ_self _)).same

section Readers

variable {sub : ExprReader} (hsub : SteadyReader sub)

include hsub

theorem settled_elements : Settled (elements sub) := by
  intro parser hsound bound hbound
  exact (alike_elements (hsub _) (fun _ => rfl) (fun _ => rfl) hsound (Nat.lt_succ_self _) hbound
    (Nat.lt_succ_self _)).same

theorem settled_arguments : Settled (arguments sub) := by
  intro parser hsound bound hbound
  exact (alike_arguments (hsub _) (fun _ => rfl) (fun _ => rfl) hsound (Nat.lt_succ_self _) hbound
    (Nat.lt_succ_self _)).same

end Readers

theorem settled_body {sub : StmtReader} (hsub : SteadyStmtReader sub) : Settled (body sub) := by
  intro parser hsound bound hbound
  exact (alike_body (hsub _) (fun _ => rfl) (fun _ => rfl) hsound (Nat.lt_succ_self _) hbound
    (Nat.lt_succ_self _)).same

section Grammars

variable {grammar : Grammar} (hgrammar : grammar.StopsAtEnd)

include hgrammar

theorem settled_tails {sub : ExprReader} (hsub : SteadyReader sub) (level : BindingPower)
    (left : Expr) : Settled fun steps => tails grammar sub level steps left := by
  intro parser hsound bound hbound
  exact (alike_tails hgrammar (hsub _) level (fun _ => rfl) (fun _ => rfl) hsound
    (Nat.lt_succ_self _) hbound (Nat.lt_succ_self _) left).same

theorem settled_exprWithin (level : BindingPower) :
    Settled fun bound => exprWithin grammar bound level := by
  intro parser hsound bound hbound
  exact (alike_exprWithin hgrammar (fun _ => rfl) (fun _ => rfl) hsound hbound
    (Nat.lt_succ_self _) level).same

theorem settled_otherArms {sub : StmtReader} (hsub : SteadyStmtReader sub) :
    Settled (otherArms grammar sub) := by
  intro parser hsound bound hbound
  exact (alike_otherArms hgrammar (hsub _) (fun _ => rfl) (fun _ => rfl) hsound
    (Nat.lt_succ_self _) hbound (Nat.lt_succ_self _)).same

theorem settled_stmtWithin : Settled (stmtWithin grammar) := by
  intro parser hsound bound hbound
  exact (alike_stmtWithin hgrammar (fun _ => rfl) (fun _ => rfl) hsound hbound
    (Nat.lt_succ_self _)).same

/-- Reading an expression takes a token, whatever the bound. -/
theorem steady_exprWithin (bound : Nat) : SteadyReader (exprWithin grammar bound) := by
  induction bound with
  | zero => exact fun _ _ _ _ _ => .unexpected
  | succ bound ih => exact fun _ level _ hnext _ => alike_exprStep hgrammar hnext (ih _) level

/-- Reading a statement or giving it up takes a token, whatever the bound. -/
theorem steady_orRecover (bound : Nat) :
    SteadyStmtReader (orRecover (stmtWithin grammar bound)) := fun _ _ hnext _ hmore =>
  alike_orRecover hnext hmore (alike_stmtWithin_self hgrammar hnext bound)

/-- Reading a statement goes along the course of the parser, whatever the bound. -/
theorem ends_stmtWithin (bound : Nat) (parser : Parser) (hsound : parser.Sound) :
    EndsWell parser (Anyhow parser) (stmtWithin grammar bound parser) :=
  ((alike_stmtWithin_self hgrammar hsound bound).mono fun _ _ _ _ => trivial).ends

end Grammars

/-- The statements of a text, read as an action among others. -/
theorem always_statements (grammar : Grammar) (bound : Nat) :
    always (Parser.statements grammar (bound + 1)) = do
      let kind ← currentKind
      if kind == .endOfInput then
        return []
      else
        let first ← always (stmtOrRecover grammar)
        let others ← always (Parser.statements grammar bound)
        return first.toList ++ others := by
  funext parser
  change EStateM.Result.ok _ _ = EStateM.bind currentKind _ parser
  rw [EStateM.bind, currentKind, Parser.statements, Parser.atEnd]
  simp only
  cases parser.current.kind == .endOfInput <;> rfl

end Parse

namespace Tandem

open Parse Pairing

variable {pair : Pairing} {tandem : Tandem pair}

/-! ### Single tokens -/

namespace Step

variable {α : Type} [Located α]

/-- Matching tokens are described alike. -/
theorem description_eq {token token' : Token} (h : pair.Matched token token') :
    token.description = token'.description := by
  rw [Token.description, Token.description, h.kind, h.value]

theorem advance : tandem.Step advance advance := by
  rw [advance_eq_glance]
  exact .glance fun _ _ h => ⟨rfl, .ok h⟩

theorem currentKind : tandem.Step currentKind currentKind := by
  rw [currentKind_eq_glance]
  exact .glance fun _ _ h => ⟨rfl, .ok h.kind⟩

theorem unexpected : tandem.Step (unexpected : Parse α) unexpected := by
  rw [unexpected_eq_glance]
  refine .glance fun token token' h => ⟨rfl, ?_⟩
  rw [description_eq h]
  exact .error

theorem uniform_judgeAccept (kind : TokenKind) : pair.Uniform (judgeAccept kind) := by
  intro token token' h
  rw [judgeAccept, judgeAccept, h.kind]
  exact ⟨rfl, .ok rfl⟩

theorem accept (kind : TokenKind) : tandem.Step (accept kind) (accept kind) := by
  rw [accept_eq_glance]
  exact .glance (uniform_judgeAccept kind)

theorem uniform_judgeKind (kind : TokenKind) : pair.Uniform (judgeKind kind) := by
  intro token token' h
  rw [judgeKind, judgeKind, h.kind, description_eq h]
  split
  · exact ⟨rfl, .ok h⟩
  · exact ⟨rfl, .error⟩

theorem expect (kind : TokenKind) : tandem.Step (expect kind) (expect kind) := by
  rw [expect_eq_glance]
  exact .glance (uniform_judgeKind kind)

theorem typeName : tandem.Step typeName typeName := by
  rw [typeName_eq_glance]
  refine .glance fun token token' h => ?_
  rw [judgeTypeName, judgeTypeName, h.kind, h.value, description_eq h]
  split
  · split
    · exact ⟨rfl, .ok (matched_pair.2 ⟨rfl, h.tokenSpan⟩)⟩
    · exact ⟨rfl, .error⟩
  · exact ⟨rfl, .error⟩

/-- Matching tokens are read as matching operands, or not at all. -/
theorem uniform_judgeAtom : pair.Uniform judgeAtom := by
  intro token token' h
  have hspan : token.span.moved pair.left = token'.span.moved pair.right := h.tokenSpan
  rw [judgeAtom, judgeAtom, Expr.ofToken, Expr.ofToken, h.kind, h.value, description_eq h]
  cases token'.kind
  case intLiteral =>
    cases Decimal.intLiteral? token'.value
    · exact ⟨rfl, .error⟩
    · exact ⟨rfl, .ok (congrArg (Expr.int _) hspan)⟩
  case floatLiteral => exact ⟨rfl, .ok (congrArg (Expr.float _) hspan)⟩
  case stringLiteral => exact ⟨rfl, .ok (congrArg (Expr.string _) hspan)⟩
  case trueWord => exact ⟨rfl, .ok (congrArg (Expr.bool _) hspan)⟩
  case falseWord => exact ⟨rfl, .ok (congrArg (Expr.bool _) hspan)⟩
  case identifier => exact ⟨rfl, .ok (congrArg (Expr.name _) hspan)⟩
  all_goals exact ⟨rfl, .error⟩

theorem atom : tandem.Step atom atom := by
  rw [atom_eq_glance]
  exact .glance uniform_judgeAtom

theorem uniform_judgeOperator : pair.Uniform judgeOperator := by
  intro token token' h
  rw [judgeOperator, judgeOperator, h.kind, description_eq h]
  split
  · exact ⟨rfl, .ok rfl⟩
  · exact ⟨rfl, .error⟩

theorem uniform_judgeOperand (grammar : Grammar) : pair.Uniform (judgeOperand grammar) := by
  intro token token' h
  rw [judgeOperand, judgeOperand, h.kind]
  split
  · exact ⟨rfl, .ok rfl⟩
  · exact ⟨rfl, .error⟩

/-! ### Annotations -/

theorem annotationWithin (bound : Nat) :
    tandem.Step (annotationWithin bound) (annotationWithin bound) := by
  induction bound with
  | zero => exact .unexpected
  | succ bound ih =>
      apply Step.currentKind.bindSame
      intro kind
      split
      · apply Step.advance.bind
        intro opening opening' hopening
        apply ih.bind
        rintro ⟨element, span⟩ ⟨element', span'⟩ hinner
        obtain rfl := matched_iff_eq.1 (matched_pair.1 hinner).1
        apply (Step.expect .closeBracket).bind
        intro closing closing' hclosing
        exact .pure (matched_pair.2 ⟨rfl, hopening.tokenSpan.spanning hclosing.tokenSpan⟩)
      · exact .typeName

theorem annotations : tandem.Step annotation annotation :=
  .bounded settled_annotationWithin settled_annotationWithin annotationWithin

/-! ### Parts of expressions -/

section Expressions

variable {sub : ExprReader} (hsub : ∀ level, tandem.Step (sub level) (sub level))

include hsub

theorem elements (bound : Nat) : tandem.Step (elements sub bound) (elements sub bound) := by
  induction bound with
  | zero => exact .unexpected
  | succ bound ih =>
      apply Step.currentKind.bindSame
      intro kind
      split
      · exact .pure matched_nil
      · apply (hsub .lowest).bind
        intro first first' hfirst
        apply (Step.accept .comma).bindSame
        intro _
        apply ih.bind
        intro others others' hothers
        exact .pure (matched_cons.2 ⟨hfirst, hothers⟩)

theorem arguments (bound : Nat) : tandem.Step (arguments sub bound) (arguments sub bound) := by
  induction bound with
  | zero => exact .unexpected
  | succ bound ih =>
      apply (hsub .lowest).bind
      intro first first' hfirst
      apply (Step.accept .comma).bindSame
      intro taken
      split
      · apply ih.bind
        intro others others' hothers
        exact .pure (matched_cons.2 ⟨hfirst, hothers⟩)
      · exact .pure (matched_cons.2 ⟨hfirst, matched_nil⟩)

theorem operand (hsteady : SteadyReader sub) (form : OperandForm) :
    tandem.Step (operand sub form) (operand sub form) := by
  cases form with
  | atom => exact .atom
  | array =>
      apply Step.advance.bind
      intro opening opening' hopening
      apply (Step.bounded (settled_elements hsteady) (settled_elements hsteady)
        (elements hsub)).bind
      intro items items' hitems
      apply (Step.expect .closeBracket).bind
      intro closing closing' hclosing
      exact .pure (matched_array.2 ⟨hitems, hopening.tokenSpan.spanning hclosing.tokenSpan⟩)
  | group =>
      apply Step.advance.bind
      intro _ _ _
      apply (hsub .lowest).bind
      intro expr expr' hexpr
      apply (Step.expect .closeParen).bind
      intro _ _ _
      exact .pure hexpr

theorem binary (power : BindingPower) {left left' : Expr} (hleft : pair.Matched left left') :
    tandem.Step (binary sub left power) (binary sub left' power) := by
  rw [binary_eq_glance, binary_eq_glance]
  apply (Step.glance uniform_judgeOperator).bindSame
  intro operator
  apply (hsub power).bind
  intro right right' hright
  exact .pure (matched_binary.2 ⟨rfl, hleft, hright, hleft.span.spanning hright.span⟩)

theorem assignment {target target' : Expr} (htarget : pair.Matched target target') :
    tandem.Step (assignment sub target) (assignment sub target') := by
  apply Step.advance.bind
  intro _ _ _
  apply (hsub .lowest).bind
  intro value value' hvalue
  exact .pure (matched_assign.2 ⟨htarget, hvalue, htarget.span.spanning hvalue.span⟩)

theorem subscript {base base' : Expr} (hbase : pair.Matched base base') :
    tandem.Step (subscript sub base) (subscript sub base') := by
  apply Step.advance.bind
  intro _ _ _
  apply (hsub .lowest).bind
  intro index index' hindex
  apply (Step.expect .closeBracket).bind
  intro closing closing' hclosing
  exact .pure (matched_subscript.2 ⟨hbase, hindex, hbase.span.spanning hclosing.tokenSpan⟩)

theorem call (hsteady : SteadyReader sub) {callee callee' : Expr}
    (hcallee : pair.Matched callee callee') :
    tandem.Step (call sub callee) (call sub callee') := by
  have hnamed := hcallee.isName
  cases callee with
  | name ident span =>
      obtain ⟨span', rfl, hspan⟩ := hcallee.eq_name
      apply Step.advance.bind
      intro _ _ _
      apply Step.currentKind.bindSame
      intro kind
      apply Step.either (.pure matched_nil)
        (.bounded (settled_arguments hsteady) (settled_arguments hsteady) (arguments hsub))
      intro items items' hitems
      apply (Step.expect .closeParen).bind
      intro closing closing' hclosing
      exact .pure (matched_call.2 ⟨rfl, hspan, hitems, hspan.spanning hclosing.tokenSpan⟩)
  | _ =>
      cases callee' with
      | name => cases hnamed
      | _ => exact .unexpected

theorem tail (hsteady : SteadyReader sub) (power : BindingPower) (form : TailForm)
    {left left' : Expr} (hleft : pair.Matched left left') :
    tandem.Step (tail sub left power form) (tail sub left' power form) := by
  cases form with
  | binary => exact binary hsub power hleft
  | assignment => exact assignment hsub hleft
  | subscript => exact subscript hsub hleft
  | call => exact call hsub hsteady hleft

theorem tails (grammar : Grammar) (hsteady : SteadyReader sub) (level : BindingPower)
    (bound : Nat) {left left' : Expr} (hleft : pair.Matched left left') :
    tandem.Step (tails grammar sub level bound left) (tails grammar sub level bound left') := by
  induction bound generalizing left left' with
  | zero => exact .unexpected
  | succ bound ih =>
      apply Step.currentKind.bindSame
      intro kind
      rw [hleft.isName]
      split
      · exact .pure hleft
      · split
        · exact .pure hleft
        · next power form _ _ =>
            apply (tail hsub hsteady power form hleft).bind
            intro longer longer' hlonger
            exact ih hlonger

end Expressions

/-! ### Whole expressions -/

section Grammars

variable {grammar : Grammar} (hgrammar : grammar.StopsAtEnd)

include hgrammar

theorem exprWithin (bound : Nat) (level : BindingPower) :
    tandem.Step (exprWithin grammar bound level) (exprWithin grammar bound level) := by
  induction bound generalizing level with
  | zero => exact .unexpected
  | succ bound ih =>
      have hsteady := steady_exprWithin hgrammar bound
      change tandem.Step (exprStep grammar (Parse.exprWithin grammar bound) level)
        (exprStep grammar (Parse.exprWithin grammar bound) level)
      rw [exprStep_eq_glance]
      apply (Step.glance (uniform_judgeOperand grammar)).bindSame
      intro form
      apply (operand ih hsteady form).bind
      intro left left' hleft
      exact .bounded (settled_tails hgrammar hsteady level left)
        (settled_tails hgrammar hsteady level left')
        fun steps => tails ih grammar hsteady level steps hleft

theorem expr (level : BindingPower) : tandem.Step (expr grammar level) (expr grammar level) :=
  .bounded (settled_exprWithin hgrammar level) (settled_exprWithin hgrammar level)
    fun bound => exprWithin hgrammar bound level

end Grammars

/-! ### Parts of statements -/

theorem parameters (bound : Nat) : tandem.Step (parameters bound) (parameters bound) := by
  induction bound with
  | zero => exact .unexpected
  | succ bound ih =>
      apply (Step.expect .identifier).bind
      intro name name' hname
      apply (Step.expect .colon).bind
      intro _ _ _
      apply Step.annotations.bind
      rintro ⟨type, span⟩ ⟨type', span'⟩ htype
      obtain rfl := matched_iff_eq.1 (matched_pair.1 htype).1
      apply (Step.accept .comma).bindSame
      intro taken
      have hparam : (⟨name.value, type⟩ : Parameter) = ⟨name'.value, type⟩ := by
        rw [hname.value]
      rw [hparam]
      split
      · apply ih.bind
        intro others others' hothers
        exact .pure (matched_cons.2 ⟨rfl, hothers⟩)
      · exact .pure rfl

section Statements

variable {sub : StmtReader} (hsub : tandem.Step (always sub) (always sub))
  (hsteady : SteadyStmtReader sub)

include hsub

theorem body (bound : Nat) : tandem.Step (body sub bound) (body sub bound) := by
  induction bound with
  | zero => exact .unexpected
  | succ bound ih =>
      apply Step.currentKind.bindSame
      intro kind
      split
      · exact .pure matched_nil
      · apply hsub.bind
        intro first first' hfirst
        apply ih.bind
        intro others others' hothers
        exact .pure (hfirst.toList_append hothers)

include hsteady

theorem block : tandem.Step (block sub) (block sub) := by
  apply (Step.expect .openCurly).bind
  intro opening opening' hopening
  apply (Step.bounded (settled_body hsteady) (settled_body hsteady) (body hsub)).bind
  intro statements statements' hstatements
  apply (Step.expect .closeCurly).bind
  intro closing closing' hclosing
  exact .pure (matched_block.2 ⟨hstatements, hopening.tokenSpan.spanning hclosing.tokenSpan⟩)

theorem function : tandem.Step (function sub) (function sub) := by
  apply Step.advance.bind
  intro opening opening' hopening
  apply (Step.expect .identifier).bind
  intro name name' hname
  apply (Step.expect .openParen).bind
  intro _ _ _
  apply Step.currentKind.bindSame
  intro kind
  apply Step.either (.pure matched_nil) (.bounded settled_parameters settled_parameters parameters)
  intro params params' hparams
  obtain rfl := matched_iff_eq.1 hparams
  apply (Step.expect .closeParen).bind
  intro closing closing' hclosing
  apply Step.currentKind.bindSame
  intro kind
  have hvoid : pair.Matched (Ty.void, closing.span) (Ty.void, closing'.span) :=
    matched_pair.2 ⟨rfl, hclosing.tokenSpan⟩
  apply Step.either (.pure hvoid) .annotations
  rintro ⟨type, last⟩ ⟨type', last'⟩ htype
  obtain ⟨hsame, hlast⟩ := matched_pair.1 htype
  obtain rfl := matched_iff_eq.1 hsame
  apply (block hsub hsteady).bind
  intro statements statements' hstatements
  apply Step.numbered
  intro source source' hsource
  rw [hname.value]
  exact .pure (matched_function hsource hopening.tokenSpan hstatements
    (hopening.tokenSpan.spanning hlast))

variable {grammar : Grammar} (hgrammar : grammar.StopsAtEnd)

include hgrammar

theorem arm : tandem.Step (arm grammar sub) (arm grammar sub) := by
  apply Step.advance.bind
  intro opening opening' hopening
  apply (expr hgrammar .lowest).bind
  intro condition condition' hcondition
  apply (block hsub hsteady).bind
  intro statements statements' hstatements
  exact .pure (matched_arm.2 ⟨hcondition, hstatements,
    hopening.tokenSpan.spanning hcondition.span⟩)

theorem otherArms (bound : Nat) :
    tandem.Step (otherArms grammar sub bound) (otherArms grammar sub bound) := by
  induction bound with
  | zero => exact .unexpected
  | succ bound ih =>
      apply (Step.accept .elseWord).bindSame
      intro taken
      split
      · apply Step.currentKind.bindSame
        intro kind
        split
        · apply (arm hsub hsteady hgrammar).bind
          intro first first' hfirst
          apply ih.bind
          rintro ⟨others, otherwise⟩ ⟨others', otherwise'⟩ hrest
          obtain ⟨hothers, hotherwise⟩ := matched_pair.1 hrest
          exact .pure (matched_pair.2 ⟨matched_cons.2 ⟨hfirst, hothers⟩, hotherwise⟩)
        · apply (block hsub hsteady).bind
          intro otherwise otherwise' hotherwise
          exact .pure (matched_pair.2 ⟨matched_nil, matched_some.2 hotherwise⟩)
      · exact .pure (matched_pair.2 ⟨matched_nil, matched_none⟩)

theorem stmtOf (form : StmtForm) :
    tandem.Step (stmtOf grammar sub form) (stmtOf grammar sub form) := by
  cases form with
  | function => exact function hsub hsteady
  | ret =>
      apply Step.advance.bind
      intro opening opening' hopening
      apply (expr hgrammar .lowest).bind
      intro value value' hvalue
      exact .pure (matched_ret.2 ⟨hvalue, hopening.tokenSpan.spanning hvalue.span⟩)
  | bind =>
      apply Step.advance.bind
      intro opening opening' hopening
      apply (Step.expect .identifier).bind
      intro name name' hname
      apply (Step.expect .assign).bind
      intro _ _ _
      apply (expr hgrammar .lowest).bind
      intro value value' hvalue
      exact .pure (matched_bind.2 ⟨hname.value, hvalue,
        hopening.tokenSpan.spanning hvalue.span⟩)
  | branch =>
      apply (arm hsub hsteady hgrammar).bind
      intro first first' hfirst
      apply (Step.bounded (settled_otherArms hgrammar hsteady) (settled_otherArms hgrammar hsteady)
        (otherArms hsub hsteady hgrammar)).bind
      rintro ⟨others, otherwise⟩ ⟨others', otherwise'⟩ hrest
      obtain ⟨hothers, hotherwise⟩ := matched_pair.1 hrest
      exact .pure (matched_branch.2 ⟨hfirst, hothers, hotherwise⟩)
  | loop =>
      apply (arm hsub hsteady hgrammar).bind
      rintro ⟨condition, statements, span⟩ ⟨condition', statements', span'⟩ honly
      exact .pure (matched_loop.2 (matched_arm.1 honly))
  | range =>
      apply Step.advance.bind
      intro opening opening' hopening
      apply (Step.expect .identifier).bind
      intro counter counter' hcounter
      apply (Step.expect .inWord).bind
      intro _ _ _
      apply (expr hgrammar .lowest).bind
      intro lower lower' hlower
      apply (Step.expect .dotDot).bind
      intro _ _ _
      apply (expr hgrammar .lowest).bind
      intro upper upper' hupper
      apply (block hsub hsteady).bind
      intro statements statements' hstatements
      exact .pure (matched_range.2 ⟨hcounter.value, hlower, hupper, hstatements,
        hopening.tokenSpan.spanning hupper.span⟩)
  | block =>
      apply (block hsub hsteady).bind
      intro inner inner' hinner
      exact .pure (matched_blockStmt.2 hinner)

end Statements

/-! ### Whole statements -/

section Grammars

variable {grammar : Grammar} (hgrammar : grammar.StopsAtEnd)

include hgrammar

theorem stmtWithin (bound : Nat) :
    tandem.Step (stmtWithin grammar bound) (stmtWithin grammar bound) := by
  induction bound with
  | zero => exact .unexpected
  | succ bound ih =>
      apply Step.currentKind.bindSame
      intro kind
      split
      · next form _ =>
          exact stmtOf (ih.orRecover (ends_stmtWithin hgrammar bound))
            (steady_orRecover hgrammar bound) hgrammar form
      · apply (expr hgrammar .lowest).bind
        intro value value' hvalue
        exact .pure (matched_expr.2 hvalue)

theorem stmt : tandem.Step (stmt grammar) (stmt grammar) :=
  .bounded (settled_stmtWithin hgrammar) (settled_stmtWithin hgrammar) (stmtWithin hgrammar)

theorem statements (bound : Nat) :
    tandem.Step (always (Parser.statements grammar bound))
      (always (Parser.statements grammar bound)) := by
  induction bound with
  | zero => exact .pure matched_nil
  | succ bound ih =>
      have hstmt : tandem.Step (always (stmtOrRecover grammar)) (always (stmtOrRecover grammar)) :=
        (stmt hgrammar).orRecover fun parser hsound => ends_stmtWithin hgrammar _ parser hsound
      rw [always_statements]
      apply Step.currentKind.bindSame
      intro kind
      split
      · exact .pure matched_nil
      · apply hstmt.bind
        intro first first' hfirst
        apply ih.bind
        intro others others' hothers
        exact .pure (hfirst.toList_append hothers)

end Grammars

end Step

end Tandem

end Quill
