import Quill.Parser.Program
import Quill.Proofs.Printing.Reading
import Quill.Proofs.Printing.Spelling

/-!
# Parsing undoes printing

The parentheses of a printed tree are just what its reader needs.  At a level that the tree's own
operator passes, and in front of a token that does not bind more tightly than that operator, reading
a printed tree comes to the tails behind it; an operand without parentheses always stands in such a
place.  At the end of a text there are no tails, and the tree has been read.
-/

namespace Quill

open Lexeme (frontKind)

namespace Operator

/-- An operator goes on with an expression as tightly as it binds. -/
theorem tail_tokenKind (operator : Operator) :
    Grammar.standard.tail operator.tokenKind = some (operator.power, .binary) := by
  cases operator <;> rfl

/-- Every operator binds more tightly than the lowest level. -/
theorem not_power_le_lowest (operator : Operator) : ¬operator.power ≤ .lowest := by
  cases operator <;> decide

/-- No operator binds as tightly as a suffix. -/
theorem not_suffix_le_power (operator : Operator) : ¬BindingPower.suffix ≤ operator.power := by
  cases operator <;> decide

end Operator

namespace Tree

/-- Whether a reader of the given level reads the tree beyond its first operand. -/
def FitsAt (level : BindingPower) : Tree → Prop
  | binary operator _ _ => ¬operator.power ≤ level
  | _ => True

/-- Whether the last operand of the tree ends in front of a token. -/
def EndsBefore (kind : TokenKind) : Tree → Prop
  | binary operator _ _ => operator.power.StopsAt kind
  | assign _ _ => BindingPower.lowest.StopsAt kind
  | _ => True

/-- A tree that is read up to its tails wherever it fits. -/
def ComesWhereFit (tree : Tree) : Prop :=
  ∀ (level : BindingPower) (rest : List Lexeme), ¬BindingPower.suffix ≤ level →
    tree.FitsAt level → tree.EndsBefore (frontKind rest) →
    Parse.Comes tree.lexemes tree.expr level rest

/-- Every tree ends in front of a token that ends the tails of the lowest level. -/
theorem endsBefore_of_stopsAt (tree : Tree) {kind : TokenKind}
    (hstops : BindingPower.lowest.StopsAt kind) : tree.EndsBefore kind := by
  cases tree with
  | binary operator _ _ =>
      intro power form htail
      exact Nat.le_trans (hstops power form htail) (Nat.zero_le _)
  | assign _ _ => exact hstops
  | _ => trivial

variable {level : BindingPower} {rest : List Lexeme}

/-- At the lowest level, a tree is read up to its tails in front of a token that ends them. -/
theorem ComesWhereFit.lowest {tree : Tree} (htree : tree.ComesWhereFit)
    (hstops : BindingPower.lowest.StopsAt (frontKind rest)) :
    Parse.Comes tree.lexemes tree.expr .lowest rest := by
  refine htree .lowest rest (by decide) ?_ (tree.endsBefore_of_stopsAt hstops)
  cases tree with
  | binary operator _ _ => exact operator.not_power_le_lowest
  | _ => trivial

/-- An operand comes to its tails in a place whose operators all fit there. -/
theorem ComesWhereFit.operand {tree : Tree} (htree : tree.ComesWhereFit) {bears : Operator → Bool}
    (hlevel : ¬BindingPower.suffix ≤ level)
    (hfits : ∀ operator, bears operator → ¬operator.power ≤ level)
    (hends : ∀ operator, bears operator → operator.power.StopsAt (frontKind rest)) :
    Parse.Comes (enclose (tree.needsParens bears) tree.lexemes) tree.expr level rest := by
  cases hneeds : tree.needsParens bears with
  -- Parentheses start an operand of their own, with the whole tree at the lowest level in them.
  | true =>
      refine Parse.Comes.operand .group rfl ?_
      intro bound parser hbound hshows
      simp only [enclose, if_true, List.cons_append, List.append_assoc, List.nil_append]
        at hbound hshows
      have hinner : Parse.Comes tree.lexemes tree.expr .lowest (.closeParen :: rest) :=
        htree.lowest (BindingPower.stopsAt_of_closes rfl)
      exact Parse.reads_group hinner hbound hshows
  -- Without them, only an operator that the place bears can be the tree's own.
  | false =>
      refine htree level rest hlevel ?_ ?_
      · cases tree with
        | binary operator _ _ => exact hfits operator (by simpa [needsParens] using hneeds)
        | _ => trivial
      · cases tree with
        | binary operator _ _ => exact hends operator (by simpa [needsParens] using hneeds)
        | assign _ _ => cases hneeds
        | _ => trivial

/-- The base of a subscript and the target of an assignment come to their tails. -/
theorem ComesWhereFit.frontOperand {tree : Tree} (htree : tree.ComesWhereFit)
    (hlevel : ¬BindingPower.suffix ≤ level) :
    Parse.Comes (enclose (tree.needsParens inFront) tree.lexemes) tree.expr level rest := by
  refine htree.operand hlevel ?_ ?_
  · intro operator hbears
    cases hbears
  · intro operator hbears
    cases hbears

/-- The left operand of an operator comes to its tails. -/
theorem ComesWhereFit.leftOperand {tree : Tree} (htree : tree.ComesWhereFit) (operator : Operator)
    (hlevel : ¬BindingPower.suffix ≤ level) (hfits : ¬operator.power ≤ level) :
    Parse.Comes (enclose (tree.needsParens (onLeft operator)) tree.lexemes) tree.expr level
      (operator.lexeme :: rest) := by
  refine htree.operand hlevel ?_ ?_
  -- The inner operator binds at least as tightly as the outer one, which passes the level.
  · intro inner hbears hle
    have hinner : operator.power ≤ inner.power := of_decide_eq_true hbears
    exact hfits (Nat.le_trans hinner hle)
  -- Behind the operand stands the outer operator, and the inner one ends in front of it.
  · intro inner hbears power form htail
    have hkind : Grammar.standard.tail operator.tokenKind = some (power, form) := htail
    rw [operator.tail_tokenKind] at hkind
    cases hkind
    exact of_decide_eq_true hbears

/-- The right operand of an operator comes to its tails. -/
theorem ComesWhereFit.rightOperand {tree : Tree} (htree : tree.ComesWhereFit) (operator : Operator)
    (hends : operator.power.StopsAt (frontKind rest)) :
    Parse.Comes (enclose (tree.needsParens (onRight operator)) tree.lexemes) tree.expr
      operator.power rest := by
  have htighter : ∀ inner, onRight operator inner → ¬inner.power ≤ operator.power := by
    intro inner hbears
    simpa [onRight] using hbears
  refine htree.operand operator.not_suffix_le_power htighter ?_
  intro inner hbears power form htail
  exact Nat.le_trans (hends power form htail) (Nat.le_of_not_le (htighter inner hbears))

/-- A literal or a name is read up to its tails at every level. -/
theorem comes_leaf (atom : Atom) : Parse.Comes [atom.lexeme] atom.expr level rest := by
  refine Parse.Comes.operand .atom ?_ ?_
  · rcases atom with _ | _ | _ | (_ | _) | _ <;> rfl
  · intro bound parser _ hshows
    exact Parse.reads_atom atom hshows

mutual

/-- A printed tree is read up to its tails wherever it fits. -/
theorem comesWhereFit : ∀ tree : Tree, tree.ComesWhereFit
  | leaf atom => fun _ _ _ _ _ => comes_leaf atom
  | array elements => by
      intro level rest _ _ _
      refine Parse.Comes.operand .array rfl ?_
      intro bound parser hbound hshows
      simp only [lexemes, List.cons_append, List.append_assoc, List.nil_append] at hbound hshows
      exact Parse.reads_array (comeAll elements) hbound hshows
  -- A call is a name with its arguments for a tail.
  | call callee arguments => by
      intro level rest hlevel _ _
      show Parse.Comes ([callee.lexeme] ++ .openParen :: (lexemesOfAll arguments ++ [.closeParen]))
        (expr (call callee arguments)) level rest
      refine Parse.Comes.extend (comes_leaf (.name callee)) (by simp) rfl hlevel (fun _ => rfl) ?_
      intro bound left parser hbound hshape hshows
      simp only [List.cons_append, List.append_assoc, List.nil_append] at hbound hshows
      obtain ⟨span, rfl⟩ := Expr.eq_name_of_unspanned hshape
      exact Parse.reads_call (comeAll arguments) hbound hshows
  | subscript base index => by
      intro level rest hlevel _ _
      have hindex : Parse.Comes index.lexemes index.expr .lowest (.closeBracket :: rest) :=
        (comesWhereFit index).lowest (BindingPower.stopsAt_of_closes rfl)
      rw [lexemes]
      refine Parse.Comes.extend ((comesWhereFit base).frontOperand hlevel) (by simp) rfl hlevel ?_
        ?_
      · intro hparen
        cases hparen
      · intro bound left parser hbound hshape hshows
        simp only [List.cons_append, List.append_assoc, List.nil_append] at hbound hshows
        rw [expr, ← hshape]
        exact Parse.reads_subscript hindex hbound hshows
  -- The operator is a tail behind its left operand: this is where both conditions are needed.
  | binary operator left right => by
      intro level rest hlevel hfits hends
      have hright := (comesWhereFit right).rightOperand operator hends
      rw [lexemes]
      refine Parse.Comes.extend ((comesWhereFit left).leftOperand operator hlevel hfits) (by simp)
        operator.tail_tokenKind hfits ?_ ?_
      · intro hparen
        cases operator <;> cases hparen
      · intro bound first parser hbound hshape hshows
        rw [expr, ← hshape]
        exact Parse.reads_binary operator hright hends hbound hshows
  | assign target value => by
      intro level rest hlevel _ hends
      have hvalue := (comesWhereFit value).lowest hends
      rw [lexemes]
      refine Parse.Comes.extend ((comesWhereFit target).frontOperand hlevel) (by simp) rfl hlevel ?_
        ?_
      · intro hparen
        cases hparen
      · intro bound left parser hbound hshape hshows
        rw [expr, ← hshape]
        exact Parse.reads_assignment hvalue hends hbound hshows

/-- Several printed trees are read between brackets. -/
theorem comeAll : ∀ trees : List Tree, Parse.ComeAll trees
  | [] => by
      intro tree htree
      cases htree
  | tree :: others => by
      intro other hother rest hcloses
      rcases List.mem_cons.1 hother with heq | hother
      · rw [heq]
        exact (comesWhereFit tree).lowest (BindingPower.stopsAt_of_closes hcloses)
      · exact comeAll others other hother rest hcloses

end

end Tree

namespace Parse

/-- No statement but an expression starts as an operand does. -/
theorem stmt_of_operand {kind : TokenKind} {form : OperandForm}
    (hform : Grammar.standard.operand kind = some form) : Grammar.standard.stmt kind = none := by
  revert hform
  cases kind <;> simp [Grammar.standard]

/-- A printed tree at the end of a text is read as a whole. -/
theorem reads_expr (tree : Tree) {parser : Parser} (hshows : parser.Shows tree.lexemes) :
    Reads (expr .standard .lowest) parser (·.unspanned = tree.expr) [] := by
  have hcomes : Comes tree.lexemes tree.expr .lowest [] :=
    tree.comesWhereFit.lowest (BindingPower.stopsAt_of_closes rfl)
  rw [← List.append_nil tree.lexemes] at hshows
  exact Reads.bounded hshows
    (hcomes.whole (BindingPower.stopsAt_of_closes rfl) (Nat.lt_succ_self _) hshows)

/-- A printed tree at the end of a text is read as a statement. -/
theorem reads_stmt (tree : Tree) {parser : Parser} (hshows : parser.Shows tree.lexemes) :
    Reads (stmt .standard) parser
      (fun found => ∃ expr : Expr, found = .expr expr ∧ expr.unspanned = tree.expr) [] := by
  obtain ⟨form, hform⟩ := tree.operand_frontKind []
  rw [List.append_nil] at hform
  apply Reads.bounded hshows
  rw [stmtWithin]
  refine Reads.bind (Reads.currentKind hshows) fun kind next hkind hsame => ?_
  subst hkind
  simp only [stmt_of_operand hform]
  refine Reads.bind (reads_expr tree hsame) fun expr _ hexpr hend => ?_
  exact Reads.pure ⟨expr, rfl, hexpr⟩ hend

end Parse

/-- A parser with a printed tree in front of it reads one statement. -/
theorem Parser.statements_of_shows (tree : Tree) {parser : Parser}
    (hshows : parser.Shows tree.lexemes) :
    ∃ expr next, parser.statements .standard (parser.remaining + 1) = ([.expr expr], next) ∧
      expr.unspanned = tree.expr ∧ next.recorded = [] := by
  obtain ⟨found, next, hread, ⟨expr, rfl, hexpr⟩, hend⟩ := Parse.reads_stmt tree hshows
  have hgoes : parser.atEnd = false := by
    rw [Parser.atEnd, beq_eq_false_iff_ne, hshows.currentKind, ← List.append_nil tree.lexemes]
    exact tree.frontKind_ne [] rfl
  have hstops : next.atEnd = true := by
    rw [Parser.atEnd, hend.currentKind]
    rfl
  have hfirst : Parse.stmtOrRecover .standard parser = (some (.expr expr), next) := by
    rw [Parse.stmtOrRecover, Parse.orRecover, hread]
  have hothers : ∀ bound, next.statements .standard bound = ([], next) := by
    intro bound
    cases bound with
    | zero => rfl
    | succ bound =>
        rw [Parser.statements]
        simp only [hstops, if_true]
  refine ⟨expr, next, ?_, hexpr, hend.clean⟩
  rw [Parser.statements]
  simp only [hgoes, hfirst, hothers]
  rfl

/-- Parsing undoes printing: whatever blanks stand between its lexemes, a printed tree is read
without any problem, as one expression statement with the tree's expression. -/
theorem parse_print (tree : Tree) (layout : Layout) (file : String) (source : Nat) :
    ∃ expr, parse file (tree.print layout) source = ⟨[.expr expr], []⟩ ∧
      expr.unspanned = tree.expr := by
  have hspells := TokenStream.spells_ofText file (tree.separates_lexemes layout)
  have hshows := Parser.shows_start hspells source
  obtain ⟨expr, next, hread, hexpr, hclean⟩ := Parser.statements_of_shows tree hshows
  refine ⟨expr, ?_, hexpr⟩
  have hparser : Parser.ofText file (tree.print layout) source =
      Parser.start (.ofText file (String.ofList (layout.write tree.lexemes))) source := rfl
  rw [parse, hparser]
  simp only [hread, hclean]

end Quill
