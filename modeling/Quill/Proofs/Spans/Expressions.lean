import Quill.Proofs.Spans.Courses

/-!
# The spans of expressions

Every reader for annotations and expressions keeps the order of what is recorded.  The expression
that it gives is well spanned and lies between the place where the reader began and the place where
it ended; a tail goes on with the expression before it and keeps its start.
-/

namespace Quill

/-- A token that is no operand is a problem of parsing. -/
theorem Parse.phase_of_judgeAtom {token : Token} {problem : Problem}
    (h : (judgeAtom token).result = .error problem) : problem.phase = .parsing := by
  rw [judgeAtom] at h
  split at h
  · cases h
  · next diagnostic hread =>
      cases h
      have hphase := Expr.phase_of_ofToken hread
      rw [ofToken_error hread] at hphase
      exact hphase

/-- A literal or a name has the span of its token. -/
theorem Expr.spanned_ofToken {file : String} {text : List Char} {token : Token} {expr : Expr}
    (hfits : token.span.Fits file text) (h : ofToken token = .ok expr) :
    expr.Spanned file text ∧ expr.span = token.span := by
  have hleaf : expr.ownSpans = [expr.span] ∧ expr.children = [] ∧ expr.span = token.span := by
    rw [ofToken] at h
    split at h
    · split at h
      · cases h
        exact ⟨rfl, rfl, rfl⟩
      · cases h
    all_goals cases h
    all_goals exact ⟨rfl, rfl, rfl⟩
  obtain ⟨hown, hchildren, hspan⟩ := hleaf
  refine ⟨.of_span hown (hspan ▸ hfits) ?_, hspan⟩
  rw [hchildren]
  simp

namespace Parse

variable {file : String} {text : List Char} {least : Nat} {parser : Parser}

/-! ### Annotations -/

/-- The annotation lies between two states. -/
abbrev Annotated (file : String) (text : List Char) (parser : Parser) (found : Ty × Span)
    (next : Parser) : Prop :=
  found.2.Lies file text parser.place next.place

theorem follows_typeName (hordered : parser.Ordered file text) :
    Follows file text least typeName typeName parser (Annotated file text parser) := by
  rw [typeName_eq_glance]
  apply Follows.glance hordered
  · intro problem hproblem
    rw [judgeTypeName] at hproblem
    split at hproblem
    · split at hproblem
      · cases hproblem
      · cases hproblem
        rfl
    · cases hproblem
      rfl
  · intro result hresult
    rw [judgeTypeName] at hresult ⊢
    split at hresult
    · next hkind =>
        split at hresult
        · cases hresult
          rw [if_pos hkind]
          exact (Taken.current hordered).lies
        · cases hresult
    · cases hresult

theorem follows_annotationWithin (hordered : parser.Ordered file text) (bound : Nat) :
    Follows file text least (annotationWithin bound) (annotationWithin bound) parser
      (Annotated file text parser) := by
  induction bound generalizing parser with
  | zero => exact .unexpected hordered
  | succ bound ih =>
      apply Follows.bind (.currentKind hordered)
      rintro kind _ - - - ⟨rfl, rfl⟩
      split
      · apply Follows.bind (.advance hordered)
        intro opening inside hinside _ _ hopening
        apply Follows.bind (ih hinside)
        intro element behind hbehind hle _ _
        apply Follows.bind (.expect hbehind)
        intro closing last hlast _ _ hclosing
        exact .pure hlast (hopening.lies.spanning hclosing.lies hle)
      · exact follows_typeName hordered

theorem follows_annotation_self (hordered : parser.Ordered file text) :
    Follows file text least annotation annotation parser (Annotated file text parser) :=
  .bounded (follows_annotationWithin hordered _)

/-! ### Expressions -/

/-- The expression lies between two states. -/
abbrev Extends (file : String) (text : List Char) (parser : Parser) (expr : Expr) (next : Parser) :
    Prop :=
  expr.Lies file text parser.place next.place

/-- All expressions lie between two states. -/
abbrev ExtendAll (file : String) (text : List Char) (parser : Parser) (exprs : List Expr)
    (next : Parser) : Prop :=
  ∀ expr ∈ exprs, expr.Lies file text parser.place next.place

/-- The reader gives well spanned expressions. -/
def ReadsInOrder (file : String) (text : List Char) (least : Nat) (sub : ExprReader) : Prop :=
  ∀ level next, next.Ordered file text →
    Follows file text least (sub level) (sub level) next (Extends file text next)

theorem follows_atom (hordered : parser.Ordered file text) :
    Follows file text least atom atom parser (Extends file text parser) := by
  rw [atom_eq_glance]
  apply Follows.glance hordered
  · exact fun problem => phase_of_judgeAtom
  · intro result hresult
    rw [judgeAtom] at hresult ⊢
    split at hresult
    · next expr hread =>
        cases hresult
        obtain ⟨hspanned, hspan⟩ := Expr.spanned_ofToken hordered.current_fits hread
        have hlies := (Taken.current hordered).lies
        rw [← hspan] at hlies
        exact ⟨hspanned, hlies.above, hlies.below⟩
    · cases hresult

section Parts

variable {sub : ExprReader} (hsub : ReadsInOrder file text least sub)

include hsub

theorem follows_elements (hordered : parser.Ordered file text) (bound : Nat) :
    Follows file text least (elements sub bound) (elements sub bound) parser
      (ExtendAll file text parser) := by
  induction bound generalizing parser with
  | zero => exact .unexpected hordered
  | succ bound ih =>
      apply Follows.bind (.currentKind hordered)
      rintro kind _ - - - ⟨rfl, rfl⟩
      split
      · exact .pure hordered fun _ hexpr => nomatch hexpr
      · apply Follows.bind (hsub .lowest parser hordered)
        intro first next hnext hle _ hfirst
        apply Follows.bind (.accept hnext)
        intro _ behind hbehind hle' _ _
        apply Follows.bind (ih hbehind)
        intro others last hlast hle'' _ hothers
        exact .pure hlast (hfirst.cons hothers (by omega) (by omega))

theorem follows_arguments (hordered : parser.Ordered file text) (bound : Nat) :
    Follows file text least (arguments sub bound) (arguments sub bound) parser
      (ExtendAll file text parser) := by
  induction bound generalizing parser with
  | zero => exact .unexpected hordered
  | succ bound ih =>
      apply Follows.bind (hsub .lowest parser hordered)
      intro first next hnext hle _ hfirst
      apply Follows.bind (.accept hnext)
      intro taken behind hbehind hle' _ _
      split
      · apply Follows.bind (ih hbehind)
        intro others last hlast hle'' _ hothers
        exact .pure hlast (hfirst.cons hothers (by omega) (by omega))
      · exact .pure hbehind (List.forall_mem_singleton.2 (hfirst.mono (Nat.le_refl _) hle'))

/-- An array lies between its brackets. -/
theorem follows_array (hordered : parser.Ordered file text) :
    Follows file text least (array sub) (array sub) parser (Extends file text parser) := by
  apply Follows.bind (.advance hordered)
  intro opening inside hinside _ _ hopening
  apply Follows.bind (.bounded (follows_elements hsub hinside _))
  intro items behind hbehind hle _ hitems
  apply Follows.bind (.expect hbehind)
  intro closing last hlast _ _ hclosing
  have hspan := hopening.lies.spanning hclosing.lies hle
  refine .pure hlast ⟨.of_span rfl hspan.fits ?_, hspan.above, hspan.below⟩
  intro item hitem
  have hlies := hitems item hitem
  exact ⟨hlies.spanned,
    hopening.lies.between_inside hclosing.lies hlies.span (Nat.le_refl _) (Nat.le_refl _)⟩

/-- An operand lies where it is read. -/
theorem follows_operand (hordered : parser.Ordered file text) (form : OperandForm) :
    Follows file text least (operand sub form) (operand sub form) parser
      (Extends file text parser) := by
  cases form with
  | atom => exact follows_atom hordered
  | array => exact follows_array hsub hordered
  | group =>
      apply Follows.bind (.advance hordered)
      intro _ inside hinside hle _ _
      apply Follows.bind (hsub .lowest inside hinside)
      intro expr behind hbehind _ _ hexpr
      apply Follows.bind (.expect hbehind)
      intro _ last hlast hle' _ _
      exact .pure hlast (hexpr.mono hle hle')

section Tails

/-- The expression begins behind an offset, and ends before the parser. -/
abbrev Continues (file : String) (text : List Char) (lower : Nat) (expr : Expr) (next : Parser) :
    Prop :=
  expr.Lies file text lower next.place

variable {left : Expr} {lower : Nat} (hleft : left.Lies file text lower parser.place)

include hleft

theorem follows_binary (hordered : parser.Ordered file text) (power : BindingPower) :
    Follows file text least (binary sub left power) (binary sub left power) parser
      (Continues file text lower) := by
  rw [binary_eq_glance]
  have hoperator : Follows file text least (glance judgeOperator) (glance judgeOperator) parser
      fun _ _ => True := by
    apply Follows.glance hordered
    · intro problem hproblem
      rw [judgeOperator] at hproblem
      split at hproblem
      · cases hproblem
      · cases hproblem
        rfl
    · exact fun _ _ => trivial
  apply Follows.bind hoperator
  intro operator behind hbehind hle _ _
  apply Follows.bind (hsub power behind hbehind)
  intro right last hlast _ _ hright
  exact .pure hlast (.of_pair rfl rfl rfl hleft hright hle)

theorem follows_assignment (hordered : parser.Ordered file text) :
    Follows file text least (assignment sub left) (assignment sub left) parser
      (Continues file text lower) := by
  apply Follows.bind (.advance hordered)
  intro _ behind hbehind hle _ _
  apply Follows.bind (hsub .lowest behind hbehind)
  intro value last hlast _ _ hvalue
  exact .pure hlast (.of_pair rfl rfl rfl hleft hvalue hle)

theorem follows_subscript (hordered : parser.Ordered file text) :
    Follows file text least (subscript sub left) (subscript sub left) parser
      (Continues file text lower) := by
  apply Follows.bind (.advance hordered)
  intro _ inside hinside hle _ _
  apply Follows.bind (hsub .lowest inside hinside)
  intro index behind hbehind hle' _ hindex
  apply Follows.bind (.expect hbehind)
  intro closing last hlast _ _ hclosing
  have hspan := hleft.span.spanning hclosing.lies (Nat.le_trans hle hle')
  refine .pure hlast ⟨.of_span rfl hspan.fits ?_, hspan.above, hspan.below⟩
  intro child hchild
  rw [Expr.children, List.mem_cons, List.mem_singleton] at hchild
  rcases hchild with rfl | rfl
  · exact ⟨hleft.spanned, hleft.span.first_inside hclosing.lies (Nat.le_trans hle hle')⟩
  · exact ⟨hindex.spanned,
      hleft.span.between_inside hclosing.lies hindex.span hle (Nat.le_refl _)⟩

/-- A call lies from the name that is called to the closing parenthesis. -/
theorem follows_call (hordered : parser.Ordered file text) :
    Follows file text least (call sub left) (call sub left) parser (Continues file text lower) := by
  cases left with
  | name ident span =>
      apply Follows.bind (.advance hordered)
      intro _ inside hinside hle _ _
      apply Follows.bind (.currentKind hinside)
      rintro kind _ - - - ⟨rfl, rfl⟩
      apply Follows.either (ExtendAll file text inside)
      · exact fun _ => .pure hinside fun _ hexpr => nomatch hexpr
      · exact fun _ => .bounded (follows_arguments hsub hinside _)
      · intro items behind hbehind hle' _ hitems
        apply Follows.bind (.expect hbehind)
        intro closing last hlast _ _ hclosing
        have hname : span.Lies file text lower parser.place := hleft.span
        have hspan := hname.spanning hclosing.lies (Nat.le_trans hle hle')
        refine .pure hlast ⟨.of_children ?_ ?_, hspan.above, hspan.below⟩
        · intro own hown
          rw [Expr.ownSpans, List.mem_cons, List.mem_singleton] at hown
          rcases hown with rfl | rfl
          · exact ⟨hspan.fits, .refl _⟩
          · exact ⟨hname.fits, hname.first_inside hclosing.lies (Nat.le_trans hle hle')⟩
        · intro item hitem
          have hlies := hitems item hitem
          exact ⟨hlies.spanned,
            hname.between_inside hclosing.lies hlies.span hle (Nat.le_refl _)⟩
  | _ => exact .unexpected hordered

/-- A tail goes on with the expression before it. -/
theorem follows_tail (hordered : parser.Ordered file text) (power : BindingPower)
    (form : TailForm) :
    Follows file text least (tail sub left power form) (tail sub left power form) parser
      (Continues file text lower) := by
  cases form with
  | binary => exact follows_binary hsub hleft hordered power
  | assignment => exact follows_assignment hsub hleft hordered
  | subscript => exact follows_subscript hsub hleft hordered
  | call => exact follows_call hsub hleft hordered

theorem follows_tails (grammar : Grammar) (level : BindingPower)
    (hordered : parser.Ordered file text) (bound : Nat) :
    Follows file text least (tails grammar sub level bound left)
      (tails grammar sub level bound left) parser (Continues file text lower) := by
  induction bound generalizing parser left with
  | zero => exact .unexpected hordered
  | succ bound ih =>
      apply Follows.bind (.currentKind hordered)
      rintro kind _ - - - ⟨rfl, rfl⟩
      split
      · exact .pure hordered hleft
      · next power form _ =>
          split
          · exact .pure hordered hleft
          · apply Follows.bind (follows_tail hsub hleft hordered power form)
            intro longer next hnext _ _ hlonger
            exact ih hlonger hnext

end Tails

end Parts

theorem follows_exprWithin (grammar : Grammar) (bound : Nat) :
    ReadsInOrder file text least (exprWithin grammar bound) := by
  induction bound with
  | zero => exact fun level next hnext => .unexpected hnext
  | succ bound ih =>
      intro level parser hordered
      show Follows file text least (exprStep grammar (exprWithin grammar bound) level)
        (exprStep grammar (exprWithin grammar bound) level) parser (Extends file text parser)
      rw [exprStep_eq_glance]
      have hform : Follows file text least (glance (judgeOperand grammar))
          (glance (judgeOperand grammar)) parser fun _ next => parser = next := by
        apply Follows.glance hordered
        · intro problem hproblem
          rw [judgeOperand] at hproblem
          split at hproblem
          · cases hproblem
          · cases hproblem
            rfl
        · intro form hform
          rw [judgeOperand] at hform ⊢
          split at hform
          · rfl
          · cases hform
      apply Follows.bind hform
      rintro form _ - - - rfl
      apply Follows.bind (follows_operand ih hordered form)
      intro left next hnext _ _ hleft
      exact .bounded (follows_tails ih hleft grammar level hnext _)

/-- An expression lies where it is read. -/
theorem follows_expr (grammar : Grammar) (hordered : parser.Ordered file text)
    (level : BindingPower) :
    Follows file text least (expr grammar level) (expr grammar level) parser
      (Extends file text parser) :=
  .bounded (follows_exprWithin grammar _ level parser hordered)

end Parse

end Quill
