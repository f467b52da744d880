import Quill.Proofs.Listing.Rules
import Quill.Proofs.Parsing.Agreement
import Quill.Proofs.Tandem.Sequel

/-!
# No word is lost or read twice

Every reader of the grammar tells the words of what it reads.  A tail of an expression goes on with
what stands in front of it, so its words come behind those of its left side; everything else is read
in the order of its words.  The main result is `words_of_parse`: the tree of a text has the words of
the text.
-/

namespace Quill

/-- An integer literal stands for the number that its digits spell. -/
theorem Decimal.toInt_of_intLiteral? {text : String} {value : Int64}
    (h : intLiteral? text = some value) : value.toInt = digitsValue text.toList := by
  unfold intLiteral? at h
  simp only at h
  split at h
  · next hle =>
      cases h
      exact Int64.toInt_ofNat_of_lt (Nat.lt_succ_of_le hle)
  · cases h

theorem Operator.tokenKind_of_ofTokenKind? {kind : TokenKind} {operator : Operator}
    (h : ofTokenKind? kind = some operator) : operator.tokenKind = kind := by
  cases kind <;> cases h <;> rfl

/-- The token that opens a statement of a form. -/
def StmtForm.opener : StmtForm → TokenKind
  | function => .fnWord
  | ret => .returnWord
  | bind => .letWord
  | branch => .ifWord
  | loop => .whileWord
  | range => .forWord
  | block => .openCurly

/-- The token that opens an operand of a form, if there is only one. -/
def OperandForm.opener? : OperandForm → Option TokenKind
  | atom => none
  | array => some .openBracket
  | group => some .openParen

/-- The token that opens a tail of a form, if there is only one. -/
def TailForm.opener? : TailForm → Option TokenKind
  | binary => none
  | assignment => some .assign
  | subscript => some .openBracket
  | call => some .openParen

namespace Grammar

variable {kind opener : TokenKind}

theorem kind_of_stmt {form : StmtForm} (h : standard.stmt kind = some form) :
    kind = form.opener := by
  cases kind <;> cases h <;> rfl

theorem kind_of_operand {form : OperandForm} (h : standard.operand kind = some form)
    (hopener : form.opener? = some opener) : kind = opener := by
  cases kind <;> cases h <;> cases hopener <;> rfl

theorem kind_of_tail {power : BindingPower} {form : TailForm}
    (h : standard.tail kind = some (power, form)) (hopener : form.opener? = some opener) :
    kind = opener := by
  cases kind <;> cases h <;> cases hopener <;> rfl

end Grammar

/-- Literals and names are the words of their tokens. -/
theorem Expr.words_of_ofToken {token : Token} {expr : Expr} (h : ofToken token = .ok expr) :
    expr.words = token.word?.toList := by
  unfold ofToken at h
  split at h
  · next hkind =>
      cases hvalue : Decimal.intLiteral? token.value with
      | none =>
          rw [hvalue] at h
          cases h
      | some value =>
          rw [hvalue] at h
          cases h
          rw [words, Token.word?, hkind, Word.of?, Decimal.toInt_of_intLiteral? hvalue]
          rfl
  case h_7 => cases h
  all_goals
    next hkind =>
      cases h
      rw [words, Token.word?, hkind]
      rfl

theorem Ty.words_of_ofName? {text : String} {ty : Ty} (h : Ty.ofName? text = some ty) :
    ty.words = [.name text] := by
  unfold Ty.ofName? at h
  split at h <;> cases h <;> rfl

namespace Parse

variable {parser : Parser} {before : List Word}

/-! ### Annotations -/

theorem tells_typeName :
    Tells parser typeName before fun read => before ++ Word.spoken read.1.words := by
  apply Tells.expect
  intro token next
  cases hname : Ty.ofName? token.value with
  | none => exact .throw
  | some ty => exact .pure (by simp [Ty.words_of_ofName? hname, Word.of?])

theorem tells_annotationWithin (bound : Nat) :
    Tells parser (annotationWithin bound) before
      fun read => before ++ Word.spoken read.1.words := by
  induction bound generalizing parser before with
  | zero => exact .unexpected
  | succ bound ih =>
      apply Tells.currentKind
      split
      · next hkind =>
          apply Tells.take (beq_iff_eq.1 hkind)
          intro opening next
          apply ih.bind
          rintro ⟨element, span⟩ next
          apply Tells.expect
          intro closing next
          exact .pure (by simp [Ty.words, Word.of?])
      · exact tells_typeName

theorem tells_annotation :
    Tells parser annotation before fun read => before ++ Word.spoken read.1.words :=
  .bounded tells_annotationWithin

/-! ### Expressions -/

theorem tells_atom : Tells parser atom before fun expr => before ++ Word.spoken expr.words := by
  apply Tells.current
  cases hread : Expr.ofToken parser.current with
  | error diagnostic => exact .throw
  | ok expr =>
      apply Tells.advance
      intro next
      exact .pure (by rw [Expr.words_of_ofToken hread, Token.said])

/-- The reader gives the words of the expressions that it reads. -/
def ReaderTells (sub : ExprReader) : Prop :=
  ∀ level parser before,
    Tells parser (sub level) before fun expr => before ++ Word.spoken expr.words

section Expressions

variable {sub : ExprReader} (hsub : ReaderTells sub)

include hsub

theorem tells_elements (bound : Nat) :
    Tells parser (elements sub bound) before
      fun exprs => before ++ Word.spoken (Expr.wordsOfAll exprs) := by
  induction bound generalizing parser before with
  | zero => exact .unexpected
  | succ bound ih =>
      apply Tells.currentKind
      split
      · exact .pure (by simp [Expr.wordsOfAll])
      · apply (hsub .lowest _ _).bind
        intro first next
        -- The comma may be there or not, and says nothing.
        have hothers : ∀ next, Tells next (elements sub bound >>= fun others =>
            Pure.pure (first :: others)) (before ++ Word.spoken first.words)
            fun exprs => before ++ Word.spoken (Expr.wordsOfAll exprs) := by
          intro next
          apply ih.bind
          intro others next
          exact .pure (by simp [Expr.wordsOfAll])
        exact .accept (fun _ next => by simpa [Word.of?] using hothers next) (hothers next)

theorem tells_arguments (bound : Nat) :
    Tells parser (arguments sub bound) before
      fun exprs => before ++ Word.spoken (Expr.wordsOfAll exprs) := by
  induction bound generalizing parser before with
  | zero => exact .unexpected
  | succ bound ih =>
      apply (hsub .lowest _ _).bind
      intro first next
      apply Tells.accept
      · intro comma next
        apply ih.bind
        intro others next
        exact .pure (by simp [Expr.wordsOfAll, Word.of?])
      · exact .pure (by simp [Expr.wordsOfAll])

theorem tells_operand {form : OperandForm}
    (hform : Grammar.standard.operand parser.current.kind = some form) :
    Tells parser (operand sub form) before fun expr => before ++ Word.spoken expr.words := by
  cases form with
  | atom => exact tells_atom
  | array =>
      apply Tells.take (Grammar.kind_of_operand hform rfl)
      intro opening next
      apply (Tells.bounded (tells_elements hsub)).bind
      intro items next
      apply Tells.expect
      intro closing next
      exact .pure (by simp [Expr.words, Word.of?])
  | group =>
      apply Tells.take (Grammar.kind_of_operand hform rfl)
      intro opening next
      apply (hsub .lowest _ _).bind
      intro expr next
      apply Tells.expect
      intro closing next
      exact .pure (by simp [Word.of?])

/-- A tail goes on with the words of the expression in front of it. -/
theorem tells_tail {power : BindingPower} {form : TailForm}
    (hform : Grammar.standard.tail parser.current.kind = some (power, form)) (left : Expr) :
    Tells parser (tail sub left power form) (before ++ Word.spoken left.words)
      fun expr => before ++ Word.spoken expr.words := by
  cases form with
  | binary =>
      apply Tells.advance
      intro next
      cases hoperator : Operator.ofTokenKind? parser.current.kind with
      | none => exact .throw
      | some operator =>
          apply (hsub power _ _).bind
          intro right next
          have hsign := Operator.tokenKind_of_ofTokenKind? hoperator
          exact .pure (by simp [Expr.words, Token.said_of_kind hsign.symm])
  | assignment =>
      apply Tells.take (Grammar.kind_of_tail hform rfl)
      intro sign next
      apply (hsub .lowest _ _).bind
      intro value next
      exact .pure (by simp [Expr.words, Word.of?])
  | subscript =>
      apply Tells.take (Grammar.kind_of_tail hform rfl)
      intro opening next
      apply (hsub .lowest _ _).bind
      intro index next
      apply Tells.expect
      intro closing next
      exact .pure (by simp [Expr.words, Word.of?])
  | call =>
      cases left with
      | name ident span =>
          apply Tells.take (Grammar.kind_of_tail hform rfl)
          intro opening next
          apply Tells.currentKind
          refine Tells.either _ (fun _ => .pure ?_) (fun _ => .bounded (tells_arguments hsub)) ?_
          · simp [Expr.wordsOfAll]
          · intro items next
            apply Tells.expect
            intro closing next
            exact .pure (by simp [Expr.words, Word.of?])
      | _ => exact .unexpected

theorem tells_tails (level : BindingPower) (bound : Nat) (left : Expr) :
    Tells parser (tails .standard sub level bound left) (before ++ Word.spoken left.words)
      fun expr => before ++ Word.spoken expr.words := by
  induction bound generalizing parser left with
  | zero => exact .unexpected
  | succ bound ih =>
      apply Tells.currentKind
      split
      · exact .pure rfl
      · next power form hform =>
          split
          · exact .pure rfl
          · apply (tells_tail hsub hform left).bind
            intro longer next
            exact ih longer

end Expressions

theorem tells_exprWithin (bound : Nat) : ReaderTells (exprWithin .standard bound) := by
  induction bound with
  | zero => exact fun _ _ _ => .unexpected
  | succ bound ih =>
      intro level parser before
      apply Tells.current
      split
      · exact .throw
      · next form hform =>
          apply (tells_operand ih hform).bind
          intro left next
          exact .bounded fun steps => tells_tails ih level steps left

theorem tells_expr : ReaderTells (expr .standard) :=
  fun level parser before => .bounded fun bound => tells_exprWithin bound level parser before

/-! ### Statements -/

theorem tells_parameters (bound : Nat) :
    Tells parser (parameters bound) before
      fun params => before ++ Word.spoken (params.flatMap Parameter.words) := by
  induction bound generalizing parser before with
  | zero => exact .unexpected
  | succ bound ih =>
      apply Tells.expect
      intro name next
      apply Tells.expect
      intro colon next
      apply tells_annotation.bind
      rintro ⟨type, span⟩ next
      apply Tells.accept
      · intro comma next
        apply ih.bind
        intro others next
        exact .pure (by simp [Parameter.words, Word.of?])
      · exact .pure (by simp [Parameter.words, Word.of?])

/-- The reader gives the words of the statements that it reads. -/
def StmtReaderTells (sub : StmtReader) : Prop :=
  ∀ parser before, Tells parser (always sub) before
    fun stmt => before ++ Word.spoken (Stmt.wordsOfAll stmt.toList)

/-- A statement that is given up leaves something recorded. -/
theorem tells_orRecover {inner : Parse Stmt}
    (h : ∀ parser before, Tells parser inner before
      fun stmt => before ++ Word.spoken stmt.words) : StmtReaderTells (orRecover inner) := by
  intro parser before result last hresult hclear
  cases hresult
  cases hinner : inner parser with
  | ok stmt next =>
      simp only [orRecover, hinner] at hclear ⊢
      simpa [Stmt.wordsOfAll] using h parser before stmt next hinner hclear
  | error diagnostic next =>
      simp only [orRecover, hinner] at hclear
      exact absurd hclear.recorded (Parser.recorded_recover_record_ne_nil _ _ _)

section Statements

variable {sub : StmtReader} (hsub : StmtReaderTells sub)

include hsub

theorem tells_body (bound : Nat) :
    Tells parser (body sub bound) before
      fun stmts => before ++ Word.spoken (Stmt.wordsOfAll stmts) := by
  induction bound generalizing parser before with
  | zero => exact .unexpected
  | succ bound ih =>
      apply Tells.currentKind
      split
      · exact .pure (by simp [Stmt.wordsOfAll])
      · apply (hsub _ _).bind
        intro first next
        apply ih.bind
        intro others next
        exact .pure (by simp [Stmt.wordsOfAll_append])

theorem tells_block :
    Tells parser (block sub) before
      fun inner => before ++ Word.spoken (Stmt.wordsOfBlock inner) := by
  apply Tells.expect
  intro opening next
  apply (Tells.bounded (tells_body hsub)).bind
  intro statements next
  apply Tells.expect
  intro closing next
  exact .pure (by simp [Stmt.wordsOfBlock, Word.of?])

theorem tells_function (hopens : parser.current.kind = .fnWord) :
    Tells parser (function sub) before fun stmt => before ++ Word.spoken stmt.words := by
  apply Tells.take hopens
  intro opening next
  apply Tells.expect
  intro name next
  apply Tells.expect
  intro openParen next
  apply Tells.currentKind
  refine Tells.either _ (fun _ => .pure ?_) (fun _ => .bounded tells_parameters) ?_
  · simp
  intro params next
  apply Tells.expect
  intro closing next
  apply Tells.currentKind
  refine Tells.either _ (fun _ => .pure ?_) (fun _ => tells_annotation) ?_
  · -- A return type that is not written is `void`, which is not spoken.
    simp [Ty.words]
  rintro ⟨returnType, last⟩ next
  apply (tells_block hsub).bind
  intro statements next
  apply Tells.sourceNumber
  exact .pure (by simp [Stmt.words, Word.of?])

/-- An arm begins with a keyword. -/
theorem tells_arm {kind : TokenKind} (hopens : parser.current.kind = kind)
    (hkeyword : ∀ text, Word.of? kind text = some (.sign kind)) :
    Tells parser (arm .standard sub) before fun arm => before ++
      Word.spoken (.sign kind :: (arm.condition.words ++ Stmt.wordsOfBlock arm.body)) := by
  apply Tells.take hopens
  intro opening next
  apply (tells_expr .lowest _ _).bind
  intro condition next
  apply (tells_block hsub).bind
  intro statements next
  exact .pure (by simp [hkeyword])

theorem tells_otherArms (bound : Nat) :
    Tells parser (otherArms .standard sub bound) before fun read => before ++
      Word.spoken (Stmt.wordsOfArms read.1 ++ Stmt.wordsOfLast read.2) := by
  induction bound generalizing parser before with
  | zero => exact .unexpected
  | succ bound ih =>
      apply Tells.accept
      · intro text next
        apply Tells.currentKind
        split
        · next hkind =>
            apply (tells_arm hsub (beq_iff_eq.1 hkind) fun _ => rfl).bind
            rintro ⟨condition, statements, span⟩ next
            apply ih.bind
            rintro ⟨others, otherwise⟩ next
            exact .pure (by simp [Stmt.wordsOfArms, Word.of?])
        · apply (tells_block hsub).bind
          intro otherwise next
          exact .pure (by simp [Stmt.wordsOfArms, Stmt.wordsOfLast, Word.of?])
      · exact .pure (by simp [Stmt.wordsOfArms, Stmt.wordsOfLast])

theorem tells_stmtOf {form : StmtForm}
    (hform : Grammar.standard.stmt parser.current.kind = some form) :
    Tells parser (stmtOf .standard sub form) before
      fun stmt => before ++ Word.spoken stmt.words := by
  have hopens := Grammar.kind_of_stmt hform
  cases form with
  | function => exact tells_function hsub hopens
  | ret =>
      apply Tells.take hopens
      intro opening next
      apply (tells_expr .lowest _ _).bind
      intro value next
      exact .pure (by simp [Stmt.words, StmtForm.opener, Word.of?])
  | bind =>
      apply Tells.take hopens
      intro opening next
      apply Tells.expect
      intro name next
      apply Tells.expect
      intro sign next
      apply (tells_expr .lowest _ _).bind
      intro value next
      exact .pure (by simp [Stmt.words, StmtForm.opener, Word.of?])
  | branch =>
      apply (tells_arm hsub hopens fun _ => rfl).bind
      rintro ⟨condition, statements, span⟩ next
      apply (Tells.bounded (tells_otherArms hsub)).bind
      rintro ⟨others, otherwise⟩ next
      exact .pure (by simp [Stmt.words, StmtForm.opener])
  | loop =>
      apply (tells_arm hsub hopens fun _ => rfl).bind
      rintro ⟨condition, statements, span⟩ next
      exact .pure (by simp [Stmt.words, StmtForm.opener])
  | range =>
      apply Tells.take hopens
      intro opening next
      apply Tells.expect
      intro counter next
      apply Tells.expect
      intro sign next
      apply (tells_expr .lowest _ _).bind
      intro lower next
      apply Tells.expect
      intro dots next
      apply (tells_expr .lowest _ _).bind
      intro upper next
      apply (tells_block hsub).bind
      intro statements next
      exact .pure (by simp [Stmt.words, StmtForm.opener, Word.of?])
  | block =>
      apply (tells_block hsub).bind
      intro inner next
      exact .pure (by simp [Stmt.words])

end Statements

theorem tells_stmtWithin (bound : Nat) :
    Tells parser (stmtWithin .standard bound) before
      fun stmt => before ++ Word.spoken stmt.words := by
  induction bound generalizing parser before with
  | zero => exact .unexpected
  | succ bound ih =>
      apply Tells.currentKind
      split
      · next form hform => exact tells_stmtOf (tells_orRecover fun _ _ => ih) hform
      · apply (tells_expr .lowest _ _).bind
        intro value next
        exact .pure (by simp [Stmt.words])

theorem tells_stmtOrRecover : StmtReaderTells (stmtOrRecover .standard) :=
  tells_orRecover fun _ _ => .bounded tells_stmtWithin

theorem tells_statements (bound : Nat) :
    Tells parser (always (Parser.statements .standard bound)) before
      fun stmts => before ++ Word.spoken (Stmt.wordsOfAll stmts) := by
  induction bound generalizing parser before with
  | zero => exact .pure (by simp [Stmt.wordsOfAll])
  | succ bound ih =>
      rw [always_statements]
      apply Tells.currentKind
      split
      · exact .pure (by simp [Stmt.wordsOfAll])
      · apply (tells_stmtOrRecover _ _).bind
        intro first next
        apply ih.bind
        intro others next
        exact .pure (by simp [Stmt.wordsOfAll_append])

end Parse

/-- At the start all words of the text are still to be read. -/
theorem Parser.awaited_ofText (file text : String) (source : Nat) :
    (Parser.ofText file text source).awaited =
      Word.spoken (TokenStream.ofText file text).words := by
  have hend : (TokenStream.ofText file text).final.token.word? = none := by
    rw [Token.word?, (TokenStream.ofText_ends file text).final, Word.of?]
  rw [TokenStream.words, TokenStream.tokens, List.filterMap_append, List.filterMap_map,
    List.filterMap_cons_none hend, List.filterMap_nil, List.append_nil]
  rfl

/-- At the end none is left. -/
theorem Parser.awaited_of_atEnd {parser : Parser} (hsound : parser.Sound)
    (hend : parser.atEnd = true) : parser.awaited = [] := by
  have hnone : parser.ahead = [] := List.length_eq_zero_iff.1 (hsound.atEnd_iff.1 hend)
  rw [awaited, hnone, List.filterMap_nil, Word.spoken_nil]

/-- No word is lost in the tree and none is read twice.  The tree of a text that is read without
problems, listed in the order of its source, has the words of the text: the keywords, the names, the
literals by their values and the operators of its tokens, without the brackets, commas and colons
that the tree has no place for. -/
theorem words_of_parse {file text : String} {source : Nat}
    (h : (parse file text source).diagnostics = []) :
    Word.spoken (Stmt.wordsOfAll (parse file text source).statements) =
      Word.spoken (TokenStream.ofText file text).words := by
  unfold parse at h ⊢
  simp only at h ⊢
  generalize hfirst : Parser.ofText file text source = first at h ⊢
  have hsound : first.Sound := hfirst ▸ Parser.sound_ofText file text source
  have hunrolls : Parse.Unrolls (Parser.statementsStep .standard) (Parser.statements .standard) :=
    fun _ => rfl
  obtain ⟨-, hreaches, hend⟩ := Parser.alike_statements Grammar.standard_stopsAtEnd hunrolls
    hunrolls hsound (Nat.lt_succ_self _) (Nat.lt_succ_self _)
  have hlast := hreaches.sound hsound
  have htells : Parse.Tells first (Parse.always (Parser.statements .standard (first.remaining + 1)))
      [] fun stmts => [] ++ Word.spoken (Stmt.wordsOfAll stmts) := Parse.tells_statements _
  obtain ⟨-, hwords⟩ := htells _ _ rfl ⟨h, hlast.ends⟩
  simp only [Parser.awaited_of_atEnd hlast hend, List.nil_append, List.append_nil] at hwords
  rw [← hwords, ← hfirst, Parser.awaited_ofText]

/-- A text with all that its tree leaves out: parentheses, a return type that is not written, commas
that are not needed, and a number with a zero in front. -/
def looselyWritten : String :=
  "fn f(a: [int], b: void) { if (a)[0] == 007 { g([1 2,]) } else if b { return (4) } }"

theorem looselyWritten_keeps_words :
    (parse "loose" looselyWritten 0).diagnostics = [] ∧
    Word.spoken (Stmt.wordsOfAll (parse "loose" looselyWritten 0).statements) =
      Word.spoken (TokenStream.ofText "loose" looselyWritten).words := by
  have hread : (parse "loose" looselyWritten 0).diagnostics = [] := by decide +kernel
  exact ⟨hread, words_of_parse hread⟩

-- the return type is in the tree, though it is not written
example : Stmt.wordsOfAll (parse "a" "fn f() { x = (01) }" 0).statements =
    [.sign .fnWord, .name "f", .name "void", .name "x", .sign .assign, .int 1] := by
  rfl

end Quill
