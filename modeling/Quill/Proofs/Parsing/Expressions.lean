import Quill.Proofs.Parsing.Alike

/-!
# Reading expressions ends

Annotations and expressions are read by recursions that are cut off at a bound.  For each of them
the step is written out as a function of the rest of the recursion.  A step calls the rest only at
states with fewer tokens left, so a bound above the number of tokens left is never used up.
-/

namespace Quill

/-- No table of the grammar has a form for the end of the text. -/
structure Grammar.StopsAtEnd (grammar : Grammar) : Prop where
  stmt : grammar.stmt .endOfInput = none
  operand : grammar.operand .endOfInput = none
  tail : grammar.tail .endOfInput = none

/-- The end of the text is no token of the language. -/
theorem Grammar.standard_stopsAtEnd : Grammar.standard.StopsAtEnd where
  stmt := rfl
  operand := rfl
  tail := rfl

/-- A token for which a table has a form is not the end of the text. -/
theorem Parser.atEnd_of_form {form : Type} {table : TokenKind → Option form} {parser : Parser}
    {found : form} (hends : table .endOfInput = none)
    (hfound : table parser.current.kind = some found) : parser.atEnd = false := by
  apply atEnd_of_kind rfl
  intro hkind
  rw [hkind, hends] at hfound
  cases hfound

/-- A literal or a name is never made of the end of the text. -/
theorem Expr.kind_of_ofToken {token : Token} {expr : Expr} (h : ofToken token = .ok expr) :
    token.kind ≠ .endOfInput := by
  intro hkind
  rw [ofToken, hkind] at h
  cases h

/-- A token that is no operand is a problem of parsing. -/
theorem Expr.phase_of_ofToken {token : Token} {diagnostic : Diagnostic}
    (h : ofToken token = .error diagnostic) : diagnostic.phase = .parsing := by
  rw [ofToken] at h
  split at h
  · split at h
    · cases h
    · cases h
      rfl
  all_goals cases h
  rfl

namespace Parse

variable {parser : Parser}

/-! ### Annotations -/

/-- One step of reading an annotation; what is in brackets is left to `inner`. -/
def annotationStep (inner : Parse (Ty × Span)) : Parse (Ty × Span) := do
  if (← currentKind) == .openBracket then
    let opening ← advance
    let (element, _) ← inner
    let closing ← expect .closeBracket
    return (.array element, opening.span.spanning closing.span)
  else
    typeName

/-- The name of a type is one token. -/
theorem alike_typeName (hsound : parser.Sound) :
    Alike typeName typeName parser (Takes parser) := by
  apply Alike.bind hsound (.expect hsound (by decide))
  intro token next _ _ htakes
  split
  · exact .pure htakes
  · exact .throw rfl

/-- A step of reading an annotation. -/
theorem alike_annotationStep {inner other : Parse (Ty × Span)} (hsound : parser.Sound)
    (hinner : ∀ next, next.Sound → next.remaining < parser.remaining →
      Alike inner other next (Takes next)) :
    Alike (annotationStep inner) (annotationStep other) parser (Takes parser) := by
  apply Alike.bind hsound .currentKind
  rintro kind _ - - ⟨rfl, rfl⟩
  split
  · next hkind =>
      have hmore := Parser.atEnd_of_kind (beq_iff_eq.1 hkind) (by decide)
      apply Alike.bind hsound (.advance hsound hmore)
      intro opening next hnext _ htakes
      apply Alike.bind hnext (hinner next hnext htakes)
      intro element last hlast _ hfewer
      apply Alike.bind hlast (.expect hlast (by decide))
      intro closing final _ hle _
      exact .pure (by omega)
  · exact alike_typeName hsound

/-- Annotations are read alike under all bounds that exceed the number of tokens left. -/
theorem alike_annotationWithin {first second : Nat → Parse (Ty × Span)}
    (hfirst : Unrolls annotationStep first) (hsecond : Unrolls annotationStep second)
    {bound bound' : Nat} (hsound : parser.Sound) (hbound : parser.remaining < bound)
    (hbound' : parser.remaining < bound') :
    Alike (first bound) (second bound') parser (Takes parser) :=
  .of_round (fun _ _ _ hparser _ hrest => alike_annotationStep hparser hrest) hfirst hsecond hsound
    (Nat.lt_succ_self _) hbound hbound'

/-- An annotation takes a token. -/
theorem alike_annotation_self (hsound : parser.Sound) :
    Alike annotation annotation parser (Takes parser) :=
  .bounded (alike_annotationWithin (fun _ => rfl) (fun _ => rfl) hsound (Nat.lt_succ_self _)
    (Nat.lt_succ_self _))

/-! ### Parts of expressions -/

/-- Two readers are alike at all states with fewer than `limit` tokens left. -/
def ReadersAlike (limit : Nat) (sub other : ExprReader) : Prop :=
  ∀ level next, next.Sound → next.remaining < limit →
    Alike (sub level) (other level) next (Takes next)

/-- Readers that are alike below a limit are so below a lower one. -/
theorem ReadersAlike.mono {limit lower : Nat} {sub other : ExprReader}
    (h : ReadersAlike limit sub other) (hle : lower ≤ limit) : ReadersAlike lower sub other :=
  fun level next hnext hless => h level next hnext (by omega)

/-- One step of reading the elements of an array; the other elements are left to `others`. -/
def elementsStep (sub : ExprReader) (others : Parse (List Expr)) : Parse (List Expr) := do
  let kind ← currentKind
  if kind == .closeBracket || kind == .endOfInput then
    return []
  else
    let first ← sub .lowest
    let _ ← accept .comma
    let others ← others
    return first :: others

/-- One step of reading arguments; the other arguments are left to `others`. -/
def argumentsStep (sub : ExprReader) (others : Parse (List Expr)) : Parse (List Expr) := do
  let first ← sub .lowest
  if ← accept .comma then
    let others ← others
    return first :: others
  else
    return [first]

/-- One step of reading tails; the other tails are left to `others`. -/
def tailsStep (grammar : Grammar) (sub : ExprReader) (level : BindingPower)
    (others : Expr → Parse Expr) (left : Expr) : Parse Expr := do
  let kind ← currentKind
  match grammar.tail kind with
  | none => return left
  | some (power, form) =>
    if power ≤ level || (kind == .openParen && !left.isName) then
      return left
    else
      let longer ← tail sub left power form
      others longer

section Parts

variable {sub other : ExprReader} {limit : Nat}

/-- A literal or a name is one token. -/
theorem alike_atom (hsound : parser.Sound) : Alike atom atom parser (Takes parser) := by
  apply Alike.bind hsound .current
  rintro token _ - - ⟨rfl, rfl⟩
  split
  · next expr hexpr =>
      have hmore := Parser.atEnd_of_kind rfl (Expr.kind_of_ofToken hexpr)
      apply Alike.bind hsound (.advance hsound hmore)
      intro _ next _ _ htakes
      exact .pure htakes
  · next diagnostic hproblem => exact .throw (Expr.phase_of_ofToken hproblem)

/-- The elements of an array are read alike under all bounds that exceed the number of tokens
left. -/
theorem alike_elements (hsub : ReadersAlike limit sub other)
    {first second : Nat → Parse (List Expr)} (hfirst : Unrolls (elementsStep sub) first)
    (hsecond : Unrolls (elementsStep other) second) {bound bound' : Nat} (hsound : parser.Sound)
    (hlimit : parser.remaining < limit) (hbound : parser.remaining < bound)
    (hbound' : parser.remaining < bound') :
    Alike (first bound) (second bound') parser (Anyhow parser) := by
  refine .of_round ?_ hfirst hsecond hsound hlimit hbound hbound'
  intro rest rest' parser hparser hless hrest
  apply Alike.bind hparser .currentKind
  rintro kind _ - - ⟨rfl, rfl⟩
  split
  · exact .pure trivial
  · apply Alike.bind hparser (hsub .lowest parser hparser hless)
    intro expr next hnext _ htakes
    apply Alike.bind hnext (.accept hnext (by decide))
    intro _ last hlast hle _
    apply Alike.bind hlast (hrest last hlast (by omega))
    intro _ _ _ _ _
    exact .pure trivial

/-- Arguments are read alike under all bounds that exceed the number of tokens left. -/
theorem alike_arguments (hsub : ReadersAlike limit sub other)
    {first second : Nat → Parse (List Expr)} (hfirst : Unrolls (argumentsStep sub) first)
    (hsecond : Unrolls (argumentsStep other) second) {bound bound' : Nat} (hsound : parser.Sound)
    (hlimit : parser.remaining < limit) (hbound : parser.remaining < bound)
    (hbound' : parser.remaining < bound') :
    Alike (first bound) (second bound') parser (Anyhow parser) := by
  refine .of_round ?_ hfirst hsecond hsound hlimit hbound hbound'
  intro rest rest' parser hparser hless hrest
  apply Alike.bind hparser (hsub .lowest parser hparser hless)
  intro expr next hnext _ htakes
  apply Alike.bind hnext (.accept hnext (by decide))
  intro taken last hlast hle _
  split
  · apply Alike.bind hlast (hrest last hlast (by omega))
    intro _ _ _ _ _
    exact .pure trivial
  · exact .pure trivial

/-- An operand takes a token.  What it holds is read behind that token. -/
theorem alike_operand (hsub : ReadersAlike parser.remaining sub other) (hsound : parser.Sound)
    (hmore : parser.atEnd = false) (form : OperandForm) :
    Alike (operand sub form) (operand other form) parser (Takes parser) := by
  cases form with
  | atom => exact alike_atom hsound
  | array =>
      apply Alike.bind hsound (.advance hsound hmore)
      intro opening next hnext _ htakes
      have hitems : Alike (elements sub (next.remaining + 1)) (elements other (next.remaining + 1))
          next (Anyhow next) :=
        alike_elements hsub (fun _ => rfl) (fun _ => rfl) hnext htakes (by omega) (by omega)
      apply Alike.bind hnext (.bounded hitems)
      intro items last hlast _ _
      apply Alike.bind hlast (.expect hlast (by decide))
      intro closing final _ _ _
      exact .pure (by omega)
  | group =>
      apply Alike.bind hsound (.advance hsound hmore)
      intro opening next hnext _ htakes
      apply Alike.bind hnext (hsub .lowest next hnext htakes)
      intro expr last hlast _ _
      apply Alike.bind hlast (.expect hlast (by decide))
      intro closing final _ _ _
      exact .pure (by omega)

/-- A tail takes a token.  What it holds is read behind that token. -/
theorem alike_tail (hsub : ReadersAlike parser.remaining sub other) (hsound : parser.Sound)
    (hmore : parser.atEnd = false) (left : Expr) (power : BindingPower) (form : TailForm) :
    Alike (tail sub left power form) (tail other left power form) parser (Takes parser) := by
  cases form with
  | binary =>
      apply Alike.bind hsound (.advance hsound hmore)
      intro token next hnext _ htakes
      split
      · apply Alike.bind hnext (hsub power next hnext htakes)
        intro right last _ _ _
        exact .pure (by omega)
      · exact .throw rfl
  | assignment =>
      apply Alike.bind hsound (.advance hsound hmore)
      intro _ next hnext _ htakes
      apply Alike.bind hnext (hsub .lowest next hnext htakes)
      intro value last _ _ _
      exact .pure (by omega)
  | subscript =>
      apply Alike.bind hsound (.advance hsound hmore)
      intro _ next hnext _ htakes
      apply Alike.bind hnext (hsub .lowest next hnext htakes)
      intro index last hlast _ _
      apply Alike.bind hlast (.expect hlast (by decide))
      intro closing final _ _ _
      exact .pure (by omega)
  | call =>
      simp only [tail, call]
      split
      · next ident span =>
          apply Alike.bind hsound (.advance hsound hmore)
          intro _ next hnext _ htakes
          apply Alike.bind hnext .currentKind
          rintro kind _ - - ⟨rfl, rfl⟩
          apply Alike.either (Anyhow next) hnext
          · exact fun _ => .pure trivial
          · intro _
            exact .bounded (alike_arguments hsub (fun _ => rfl) (fun _ => rfl) hnext htakes
              (by omega) (by omega))
          · intro items last hlast _ _
            apply Alike.bind hlast (.expect hlast (by decide))
            intro closing final _ _ _
            exact .pure (by omega)
      · exact .unexpected

end Parts

/-- Tails are read alike under all bounds that exceed the number of tokens left. -/
theorem alike_tails {grammar : Grammar} (hgrammar : grammar.StopsAtEnd) {sub other : ExprReader}
    {limit : Nat} (hsub : ReadersAlike limit sub other) (level : BindingPower)
    {first second : Nat → Expr → Parse Expr} (hfirst : Unrolls (tailsStep grammar sub level) first)
    (hsecond : Unrolls (tailsStep grammar other level) second) {bound bound' : Nat}
    (hsound : parser.Sound) (hlimit : parser.remaining < limit)
    (hbound : parser.remaining < bound) (hbound' : parser.remaining < bound') (left : Expr) :
    Alike (first bound left) (second bound' left) parser (Anyhow parser) := by
  refine .of_step ?_ hfirst hsecond hsound hlimit hbound hbound' left
  intro rest rest' parser hparser hless hrest left
  apply Alike.bind hparser .currentKind
  rintro kind _ - - ⟨rfl, rfl⟩
  split
  · exact .pure trivial
  · next power form htail =>
      split
      · exact .pure trivial
      · have hmore := Parser.atEnd_of_form hgrammar.tail htail
        have hbelow := hsub.mono (Nat.le_of_lt hless)
        apply Alike.bind hparser (alike_tail hbelow hparser hmore left power form)
        intro longer next hnext _ htakes
        exact hrest longer next hnext htakes

/-! ### Whole expressions -/

/-- One step of reading an expression; the expressions inside it are left to `sub`. -/
def exprStep (grammar : Grammar) (sub : ExprReader) : ExprReader := fun level => do
  let token ← current
  match grammar.operand token.kind with
  | none => throw (.of .expectedExpression token.span)
  | some form =>
    let left ← operand sub form
    bounded fun steps => tails grammar sub level steps left

section Whole

variable {grammar : Grammar} (hgrammar : grammar.StopsAtEnd)

include hgrammar

/-- A step of reading an expression. -/
theorem alike_exprStep {sub other : ExprReader} (hsound : parser.Sound)
    (hsub : ReadersAlike parser.remaining sub other) (level : BindingPower) :
    Alike (exprStep grammar sub level) (exprStep grammar other level) parser (Takes parser) := by
  apply Alike.bind hsound .current
  rintro token _ - - ⟨rfl, rfl⟩
  split
  · exact .throw rfl
  · next form hform =>
      have hmore := Parser.atEnd_of_form hgrammar.operand hform
      apply Alike.bind hsound (alike_operand hsub hsound hmore form)
      intro left next hnext _ htakes
      have htails : Alike (tails grammar sub level (next.remaining + 1) left)
          (tails grammar other level (next.remaining + 1) left) next (Anyhow next) :=
        alike_tails hgrammar hsub level (fun _ => rfl) (fun _ => rfl) hnext htakes (by omega)
          (by omega) left
      apply Alike.bounded
      apply htails.mono
      intro _ last hle _
      omega

/-- Expressions are read alike under all bounds that exceed the number of tokens left. -/
theorem alike_exprWithin {first second : Nat → ExprReader}
    (hfirst : Unrolls (exprStep grammar) first) (hsecond : Unrolls (exprStep grammar) second)
    {bound bound' : Nat} (hsound : parser.Sound) (hbound : parser.remaining < bound)
    (hbound' : parser.remaining < bound') (level : BindingPower) :
    Alike (first bound level) (second bound' level) parser (Takes parser) := by
  refine .of_step ?_ hfirst hsecond hsound (Nat.lt_succ_self _) hbound hbound' level
  intro rest rest' parser hparser _ hrest level
  exact alike_exprStep hgrammar hparser hrest level

/-- An expression takes a token. -/
theorem alike_expr (hsound : parser.Sound) (level : BindingPower) :
    Alike (expr grammar level) (expr grammar level) parser (Takes parser) := by
  apply Alike.bounded
  exact alike_exprWithin hgrammar (fun _ => rfl) (fun _ => rfl) hsound (Nat.lt_succ_self _)
    (Nat.lt_succ_self _) level

end Whole

end Parse

end Quill
