import Quill.Proofs.Printing.Tree
import Quill.Proofs.Shows

/-!
# Reading printed expressions

An expression is read as an operand with its tails, one after the other, and a binary expression on
the left of another is no expression of its own for the reader.  So what is proved of a printed tree
is not that it is read, but that reading comes to the tails behind it with the tree's expression in
hand (`Comes`).  An operand and each form of tail are shown to come that far; whether the reader
stops there depends on the level at which it reads and on the token that follows.
-/

namespace Quill

open Lexeme (frontKind)

/-- Whether tails of the level end in front of a token. -/
def BindingPower.StopsAt (level : BindingPower) (kind : TokenKind) : Prop :=
  ∀ power form, Grammar.standard.tail kind = some (power, form) → power ≤ level

/-- A token that goes on with no expression ends the tails of every level. -/
theorem BindingPower.stopsAt_of_closes {level : BindingPower} {kind : TokenKind}
    (hcloses : Grammar.standard.tail kind = none) : level.StopsAt kind := by
  intro power form htail
  rw [hcloses] at htail
  cases htail

/-- Spans do not tell names from other expressions. -/
theorem Expr.isName_unspanned (expr : Expr) : expr.unspanned.isName = expr.isName := by
  cases expr <;> rfl

/-- In parentheses or not, lexemes that start as an operand do still start so. -/
theorem Tree.operand_frontKind_enclose {lexemes : List Lexeme}
    (h : ∀ rest, ∃ form, Grammar.standard.operand (frontKind (lexemes ++ rest)) = some form)
    {needed : Bool} {rest : List Lexeme} :
    ∃ form, Grammar.standard.operand (frontKind (enclose needed lexemes ++ rest)) = some form := by
  cases needed with
  | false => exact h rest
  | true => exact ⟨.group, rfl⟩

/-- Only names are names without their spans. -/
theorem Expr.eq_name_of_unspanned {expr : Expr} {ident : String}
    (h : expr.unspanned = .name ident default) : ∃ span, expr = .name ident span := by
  cases expr <;> cases h
  exact ⟨_, rfl⟩

/-- A printed tree starts as an operand does. -/
theorem Tree.operand_frontKind : ∀ (tree : Tree) (rest : List Lexeme),
    ∃ form, Grammar.standard.operand (frontKind (tree.lexemes ++ rest)) = some form
  | leaf atom, _ => by
      rcases atom with _ | _ | _ | (_ | _) | _ <;> exact ⟨.atom, rfl⟩
  | array _, _ => ⟨.array, rfl⟩
  | call _ _, _ => ⟨.atom, rfl⟩
  | subscript base _, rest => by
      rw [lexemes, List.append_assoc]
      exact operand_frontKind_enclose (operand_frontKind base)
  | binary _ left _, rest => by
      rw [lexemes, List.append_assoc]
      exact operand_frontKind_enclose (operand_frontKind left)
  | assign target _, rest => by
      rw [lexemes, List.append_assoc]
      exact operand_frontKind_enclose (operand_frontKind target)

/-- A printed tree starts with no token that starts no operand. -/
theorem Tree.frontKind_ne (tree : Tree) (rest : List Lexeme) {kind : TokenKind}
    (hkind : Grammar.standard.operand kind = none) : frontKind (tree.lexemes ++ rest) ≠ kind := by
  obtain ⟨form, hform⟩ := tree.operand_frontKind rest
  rintro rfl
  rw [hkind] at hform
  cases hform

/-- A printed tree has lexemes. -/
theorem Tree.length_lexemes_pos (tree : Tree) : 0 < tree.lexemes.length := by
  obtain ⟨form, hform⟩ := tree.operand_frontKind []
  cases hlexemes : tree.lexemes with
  | nil =>
      rw [hlexemes] at hform
      cases hform
  | cons _ _ => exact Nat.succ_pos _

/-- The digits of a number spell that number. -/
theorem Decimal.digitsValue_toDigits (n : Nat) : digitsValue (Nat.toDigits 10 n) = n := by
  have hspelled := Nat.ofDigitChars_ten_toDigits (n := n)
  rw [Nat.ofDigitChars_eq_foldl] at hspelled
  -- The two folds differ in the order of the factors only.
  have hfun : (fun value (digit : Char) => value * 10 + (digit.toNat - '0'.toNat)) =
      fun value digit => 10 * value + (digit.toNat - '0'.toNat) := by
    funext value digit
    rw [Nat.mul_comm]
  rw [digitsValue, hfun, hspelled]

/-- The digits of an integer that is not negative spell that integer. -/
theorem Decimal.intLiteral?_toDigits {value : Int64} (hnonneg : 0 ≤ value) :
    intLiteral? (String.ofList (Nat.toDigits 10 value.toInt.toNat)) = some value := by
  have hzero : 0 ≤ value.toInt := Int64.le_iff_toInt_le.1 hnonneg
  have hle : value.toInt.toNat ≤ maxInt := by
    have hlt := value.toInt_lt
    rw [maxInt]
    omega
  rw [intLiteral?, String.toList_ofList, digitsValue_toDigits]
  simp only [hle, if_true]
  rw [← Int64.ofInt_eq_ofNat, Int.toNat_of_nonneg hzero, Int64.ofInt_toInt]

/-- The token of an atom stands for the atom's expression. -/
theorem Atom.ofToken (atom : Atom) {token : Token} (htoken : token.content = atom.lexeme.content) :
    ∃ expr, Expr.ofToken token = .ok expr ∧ expr.unspanned = atom.expr := by
  have hkind : token.kind = atom.lexeme.kind := congrArg Prod.fst htoken
  have hvalue : token.value = String.ofList atom.lexeme.value := congrArg Prod.snd htoken
  cases atom with
  | int value nonneg =>
      refine ⟨.int value token.span, ?_, rfl⟩
      have hliteral : Decimal.intLiteral? token.value = some value := by
        rw [hvalue]
        exact Decimal.intLiteral?_toDigits nonneg
      simp only [Expr.ofToken, hkind, lexeme, hliteral]
  | float number =>
      refine ⟨.float (Decimal.floatLiteral token.value) token.span, ?_, ?_⟩
      · simp only [Expr.ofToken, hkind, lexeme]
      · rw [hvalue]
        rfl
  | string text unquoted =>
      refine ⟨.string token.value token.span, ?_, ?_⟩
      · simp only [Expr.ofToken, hkind, lexeme]
      · have htext : token.value = text := by
          rw [hvalue, lexeme, Lexeme.value_quoted unquoted, String.ofList_toList]
        rw [htext]
        rfl
  | bool value =>
      refine ⟨.bool value token.span, ?_, rfl⟩
      cases value <;> simp only [Expr.ofToken, hkind, lexeme]
  | name ident =>
      refine ⟨.name token.value token.span, ?_, ?_⟩
      · simp only [Expr.ofToken, hkind, lexeme, Identifier.lexeme]
      · have hword : token.value = ident.text := hvalue.trans String.ofList_toList
        rw [hword]
        rfl

namespace Parse

variable {level : BindingPower} {lexemes more rest : List Lexeme} {shape longer : Expr}

/-- Reading the lexemes at a level comes to the tails behind an expression of a given shape. -/
def Comes (lexemes : List Lexeme) (shape : Expr) (level : BindingPower) (rest : List Lexeme) :
    Prop :=
  ∀ (bound : Nat) (parser : Parser), (lexemes ++ rest).length ≤ bound →
    parser.Shows (lexemes ++ rest) →
    ∃ steps left next, rest.length < steps ∧ left.unspanned = shape ∧ next.Shows rest ∧
      exprWithin .standard (bound + 1) level parser =
        tails .standard (exprWithin .standard bound) level steps left next

/-- Tails are read no further than to a token that does not bind tightly enough. -/
theorem tails_stop {sub : ExprReader} {steps : Nat} {left : Expr} {parser : Parser}
    (hshows : parser.Shows rest) (hsteps : 0 < steps) (hstops : level.StopsAt (frontKind rest)) :
    tails .standard sub level steps left parser = .ok left parser := by
  obtain ⟨steps, rfl⟩ := Nat.exists_eq_add_one_of_ne_zero (Nat.ne_zero_of_lt hsteps)
  have hkind : currentKind parser = .ok (frontKind rest) parser := by
    rw [currentKind, hshows.currentKind]
  rw [tails, bind_of_ok hkind]
  cases htail : Grammar.standard.tail (frontKind rest) with
  | none => rfl
  | some found =>
      have hle := hstops found.1 found.2 htail
      simp only [hle, decide_true, Bool.true_or, if_true]
      rfl

/-- A tail that binds tightly enough is read, and the reader goes on. -/
theorem tails_step {sub : ExprReader} {steps : Nat} {left extended : Expr} {parser next : Parser}
    {power : BindingPower} {form : TailForm} (hshows : parser.Shows rest)
    (htail : Grammar.standard.tail (frontKind rest) = some (power, form)) (hpower : ¬power ≤ level)
    (hname : frontKind rest = .openParen → left.isName)
    (hread : tail sub left power form parser = .ok extended next) :
    tails .standard sub level (steps + 1) left parser =
      tails .standard sub level steps extended next := by
  have hkind : currentKind parser = .ok (frontKind rest) parser := by
    rw [currentKind, hshows.currentKind]
  have hgoes : (decide (power ≤ level) || (frontKind rest == .openParen && !left.isName)) =
      false := by
    rw [Bool.or_eq_false_iff, decide_eq_false_iff_not]
    refine ⟨hpower, ?_⟩
    -- A parenthesis opens a call only behind a name.
    by_cases hparen : frontKind rest = .openParen
    · simp [hname hparen]
    · simp [hparen]
  rw [tails, bind_of_ok hkind]
  simp only [htail, hgoes]
  exact bind_of_ok hread

/-- An operand comes to the tails behind it. -/
theorem Comes.operand (form : OperandForm)
    (hform : Grammar.standard.operand (frontKind (lexemes ++ rest)) = some form)
    (hread : ∀ bound parser, (lexemes ++ rest).length ≤ bound → parser.Shows (lexemes ++ rest) →
      Reads (operand (exprWithin .standard bound) form) parser (·.unspanned = shape) rest) :
    Comes lexemes shape level rest := by
  intro bound parser hbound hshows
  obtain ⟨left, next, heq, hshape, hnext⟩ := hread bound parser hbound hshows
  refine ⟨next.remaining + 1, left, next, ?_, hshape, hnext, ?_⟩
  · rw [hnext.remaining]
    omega
  · have hcurrent : current parser = .ok parser.current parser := rfl
    rw [exprWithin, bind_of_ok hcurrent]
    simp only [hshows.currentKind, hform]
    rw [bind_of_ok heq]
    rfl

/-- A tail behind an expression comes to the tails behind itself. -/
theorem Comes.extend {power : BindingPower} {form : TailForm}
    (h : Comes lexemes shape level (more ++ rest)) (hsome : more ≠ [])
    (htail : Grammar.standard.tail (frontKind (more ++ rest)) = some (power, form))
    (hpower : ¬power ≤ level) (hname : frontKind (more ++ rest) = .openParen → shape.isName)
    (hread : ∀ bound left parser, (more ++ rest).length ≤ bound → left.unspanned = shape →
      parser.Shows (more ++ rest) →
      Reads (tail (exprWithin .standard bound) left power form) parser (·.unspanned = longer)
        rest) :
    Comes (lexemes ++ more) longer level rest := by
  intro bound parser hbound hshows
  rw [List.append_assoc] at hbound hshows
  obtain ⟨steps, left, next, hsteps, hshape, hnext, heq⟩ := h bound parser hbound hshows
  rw [List.length_append] at hbound
  obtain ⟨extended, final, hextended, hlonger, hfinal⟩ :=
    hread bound left next (by omega) hshape hnext
  have hlength := List.length_pos_iff.2 hsome
  rw [List.length_append] at hsteps
  obtain ⟨steps, rfl⟩ := Nat.exists_eq_add_one_of_ne_zero (Nat.ne_zero_of_lt hsteps)
  -- A tail takes a step and has a lexeme, so that the steps that are left still suffice.
  refine ⟨steps, extended, final, by omega, hlonger, hfinal, ?_⟩
  rw [heq]
  refine tails_step hnext htail hpower ?_ hextended
  intro hparen
  rw [← Expr.isName_unspanned, hshape]
  exact hname hparen

/-- In front of a token that ends its tails, an expression is read. -/
theorem Comes.whole (h : Comes lexemes shape level rest) (hstops : level.StopsAt (frontKind rest))
    {bound : Nat} {parser : Parser} (hbound : (lexemes ++ rest).length < bound)
    (hshows : parser.Shows (lexemes ++ rest)) :
    Reads (exprWithin .standard bound level) parser (·.unspanned = shape) rest := by
  obtain ⟨bound, rfl⟩ := Nat.exists_eq_add_one_of_ne_zero (Nat.ne_zero_of_lt hbound)
  obtain ⟨steps, left, next, hsteps, hshape, hnext, heq⟩ :=
    h bound parser (Nat.le_of_lt_succ hbound) hshows
  refine ⟨left, next, ?_, hshape, hnext⟩
  rw [heq, tails_stop hnext (Nat.zero_lt_of_lt hsteps) hstops]

/-- A literal or a name is read from its token. -/
theorem reads_atom (atom : Atom) {parser : Parser} (hshows : parser.Shows (atom.lexeme :: rest)) :
    Reads Parse.atom parser (·.unspanned = atom.expr) rest := by
  have hcurrent : current parser = .ok parser.current parser := rfl
  obtain ⟨expr, hexpr, hshape⟩ := atom.ofToken hshows.current
  refine ⟨expr, parser.advance, ?_, hshape, hshows.advance⟩
  rw [Parse.atom, bind_of_ok hcurrent]
  simp only [hexpr]
  rfl

/-- An expression in parentheses. -/
theorem reads_group {bound : Nat} {parser : Parser}
    (hinner : Comes lexemes shape .lowest (.closeParen :: rest))
    (hbound : (.openParen :: (lexemes ++ .closeParen :: rest)).length ≤ bound)
    (hshows : parser.Shows (.openParen :: (lexemes ++ .closeParen :: rest))) :
    Reads (group (exprWithin .standard bound)) parser (·.unspanned = shape) rest := by
  refine Reads.bind (Reads.advance hshows) fun _ _ _ hafter => ?_
  have hread := hinner.whole (BindingPower.stopsAt_of_closes rfl) (Nat.lt_of_succ_le hbound) hafter
  refine Reads.bind hread fun expr _ hexpr hclose => ?_
  refine Reads.bind (Reads.expect hclose) fun _ _ _ hrest => ?_
  exact Reads.pure hexpr hrest

/-- A subscript behind an expression. -/
theorem reads_subscript {bound : Nat} {parser : Parser} {left : Expr}
    (hindex : Comes lexemes shape .lowest (.closeBracket :: rest))
    (hbound : (.openBracket :: (lexemes ++ .closeBracket :: rest)).length ≤ bound)
    (hshows : parser.Shows (.openBracket :: (lexemes ++ .closeBracket :: rest))) :
    Reads (subscript (exprWithin .standard bound) left) parser
      (·.unspanned = .subscript left.unspanned shape default) rest := by
  refine Reads.bind (Reads.advance hshows) fun _ _ _ hafter => ?_
  have hread := hindex.whole (BindingPower.stopsAt_of_closes rfl) (Nat.lt_of_succ_le hbound) hafter
  refine Reads.bind hread fun index _ hshape hclose => ?_
  refine Reads.bind (Reads.expect hclose) fun _ _ _ hrest => ?_
  refine Reads.pure ?_ hrest
  rw [Expr.unspanned, hshape]

/-- A value behind the target of an assignment. -/
theorem reads_assignment {bound : Nat} {parser : Parser} {left : Expr}
    (hvalue : Comes lexemes shape .lowest rest)
    (hstops : BindingPower.lowest.StopsAt (frontKind rest))
    (hbound : (.assign :: (lexemes ++ rest)).length ≤ bound)
    (hshows : parser.Shows (.assign :: (lexemes ++ rest))) :
    Reads (assignment (exprWithin .standard bound) left) parser
      (·.unspanned = .assign left.unspanned shape default) rest := by
  refine Reads.bind (Reads.advance hshows) fun _ _ _ hafter => ?_
  have hread := hvalue.whole hstops (Nat.lt_of_succ_le hbound) hafter
  refine Reads.bind hread fun value _ hshape hrest => ?_
  refine Reads.pure ?_ hrest
  rw [Expr.unspanned, hshape]

/-- An operator and its right operand behind the left one. -/
theorem reads_binary (operator : Operator) {bound : Nat} {parser : Parser} {left : Expr}
    (hright : Comes lexemes shape operator.power rest)
    (hstops : operator.power.StopsAt (frontKind rest))
    (hbound : (operator.lexeme :: (lexemes ++ rest)).length ≤ bound)
    (hshows : parser.Shows (operator.lexeme :: (lexemes ++ rest))) :
    Reads (binary (exprWithin .standard bound) left operator.power) parser
      (·.unspanned = .binary operator left.unspanned shape default) rest := by
  refine Reads.bind (Reads.advance hshows) fun token _ htoken hafter => ?_
  have hkind : Operator.ofTokenKind? token.kind = some operator := by
    rw [show token.kind = operator.lexeme.kind from congrArg Prod.fst htoken]
    cases operator <;> rfl
  simp only [hkind]
  have hread := hright.whole hstops (Nat.lt_of_succ_le hbound) hafter
  refine Reads.bind hread fun right _ hshape hrest => ?_
  refine Reads.pure ?_ hrest
  rw [Expr.unspanned, hshape]

/-- Whether the expressions of trees can be read in front of tokens that end them. -/
def ComeAll (trees : List Tree) : Prop :=
  ∀ tree ∈ trees, ∀ rest, Grammar.standard.tail (frontKind rest) = none →
    Comes tree.lexemes tree.expr .lowest rest

/-- Behind each of several trees comes a comma and the next one, or what closes them all. -/
theorem reads_separated (tree : Tree) (others : List Tree) (closing : Lexeme) (rest : List Lexeme)
    (hcomma : closing.kind ≠ .comma) (hcloses : Grammar.standard.tail closing.kind = none) :
    ∃ follow, Grammar.standard.tail (frontKind follow) = none ∧
      Tree.lexemesOfAll (tree :: others) ++ closing :: rest = tree.lexemes ++ follow ∧
      (Tree.lexemesOfAll others ++ closing :: rest).length ≤ follow.length ∧
      ∀ {parser : Parser}, parser.Shows follow →
        Reads (accept .comma) parser (fun taken => taken = !others.isEmpty)
          (Tree.lexemesOfAll others ++ closing :: rest) := by
  cases others with
  | nil => exact ⟨closing :: rest, hcloses, rfl, Nat.le_refl _, fun h => Reads.decline h hcomma⟩
  | cons next more =>
      refine ⟨.comma :: (Tree.lexemesOfAll (next :: more) ++ closing :: rest), rfl, ?_, ?_, ?_⟩
      · rw [Tree.lexemesOfAll, List.append_assoc, List.cons_append]
      · exact Nat.le_succ _
      · intro parser hshows
        exact Reads.accept hshows

/-- The elements of an array, up to its closing bracket. -/
theorem reads_elements {trees : List Tree} (htrees : ComeAll trees) :
    ∀ {bound steps : Nat} {parser : Parser},
      (Tree.lexemesOfAll trees ++ .closeBracket :: rest).length < bound →
      (Tree.lexemesOfAll trees ++ .closeBracket :: rest).length < steps →
      parser.Shows (Tree.lexemesOfAll trees ++ .closeBracket :: rest) →
      Reads (elements (exprWithin .standard bound) steps) parser
        (fun items => Expr.unspannedAll items = Tree.exprOfAll trees) (.closeBracket :: rest) := by
  induction trees with
  | nil =>
      intro bound steps parser hbound hsteps hshows
      obtain ⟨steps, rfl⟩ := Nat.exists_eq_add_one_of_ne_zero (Nat.ne_zero_of_lt hsteps)
      rw [elements]
      refine Reads.bind (Reads.currentKind hshows) fun kind _ hkind hsame => ?_
      subst hkind
      exact Reads.pure rfl hsame
  | cons tree others ih =>
      intro bound steps parser hbound hsteps hshows
      obtain ⟨steps, rfl⟩ := Nat.exists_eq_add_one_of_ne_zero (Nat.ne_zero_of_lt hsteps)
      -- Both bounds count lexemes: the first tree takes some, and the others are shorter.
      obtain ⟨follow, hends, hlexemes, hlength, hcomma⟩ :=
        reads_separated tree others .closeBracket rest (by decide) rfl
      rw [hlexemes] at hbound hsteps hshows
      have hfirst := htrees tree (by simp) follow hends
      have hpositive := tree.length_lexemes_pos
      rw [elements]
      refine Reads.bind (Reads.currentKind hshows) fun kind _ hkind hsame => ?_
      have hgoes : (kind == .closeBracket || kind == .endOfInput) = false := by
        rw [Bool.or_eq_false_iff, beq_eq_false_iff_ne, beq_eq_false_iff_ne, hkind]
        exact ⟨tree.frontKind_ne follow rfl, tree.frontKind_ne follow rfl⟩
      rw [hgoes]
      have hread := hfirst.whole (BindingPower.stopsAt_of_closes hends) hbound hsame
      refine Reads.bind hread fun first _ hshape hafter => ?_
      refine Reads.bind (hcomma hafter) fun _ _ _ hnext => ?_
      rw [List.length_append] at hbound hsteps
      have hothers : ComeAll others := fun other hother => htrees other (by simp [hother])
      refine Reads.bind (ih hothers (by omega) (by omega) hnext) fun items _ hitems hrest => ?_
      refine Reads.pure ?_ hrest
      rw [Expr.unspannedAll, Tree.exprOfAll, hshape, hitems]

/-- One or more arguments of a call, up to its closing parenthesis. -/
theorem reads_arguments {trees : List Tree} (htrees : ComeAll trees) (hsome : trees ≠ []) :
    ∀ {bound steps : Nat} {parser : Parser},
      (Tree.lexemesOfAll trees ++ .closeParen :: rest).length < bound →
      (Tree.lexemesOfAll trees ++ .closeParen :: rest).length < steps →
      parser.Shows (Tree.lexemesOfAll trees ++ .closeParen :: rest) →
      Reads (arguments (exprWithin .standard bound) steps) parser
        (fun items => Expr.unspannedAll items = Tree.exprOfAll trees) (.closeParen :: rest) := by
  induction trees with
  | nil => exact absurd rfl hsome
  | cons tree others ih =>
      intro bound steps parser hbound hsteps hshows
      obtain ⟨steps, rfl⟩ := Nat.exists_eq_add_one_of_ne_zero (Nat.ne_zero_of_lt hsteps)
      obtain ⟨follow, hends, hlexemes, hlength, hcomma⟩ :=
        reads_separated tree others .closeParen rest (by decide) rfl
      rw [hlexemes] at hbound hsteps hshows
      have hfirst := htrees tree (by simp) follow hends
      have hpositive := tree.length_lexemes_pos
      rw [arguments]
      have hread := hfirst.whole (BindingPower.stopsAt_of_closes hends) hbound hshows
      refine Reads.bind hread fun first _ hshape hafter => ?_
      refine Reads.bind (hcomma hafter) fun taken _ htaken hnext => ?_
      rw [List.length_append] at hbound hsteps
      subst htaken
      -- Without a comma there are no other arguments, and the closing parenthesis is next.
      cases others with
      | nil =>
          refine Reads.pure ?_ hnext
          rw [Expr.unspannedAll, Tree.exprOfAll, hshape]
          rfl
      | cons next more =>
          have hothers : ComeAll (next :: more) := fun other hother =>
            htrees other (List.mem_cons_of_mem tree hother)
          refine Reads.bind (ih hothers (by simp) (by omega) (by omega) hnext)
            fun items _ hitems hrest => ?_
          refine Reads.pure ?_ hrest
          rw [Expr.unspannedAll, Tree.exprOfAll, hshape, hitems]

/-- An array literal. -/
theorem reads_array {trees : List Tree} (htrees : ComeAll trees) {bound : Nat} {parser : Parser}
    (hbound : (.openBracket :: (Tree.lexemesOfAll trees ++ .closeBracket :: rest)).length ≤ bound)
    (hshows : parser.Shows (.openBracket :: (Tree.lexemesOfAll trees ++ .closeBracket :: rest))) :
    Reads (array (exprWithin .standard bound)) parser
      (·.unspanned = .array (Tree.exprOfAll trees) default) rest := by
  refine Reads.bind (Reads.advance hshows) fun _ next _ hafter => ?_
  have hitems := Reads.bounded hafter
    (reads_elements htrees (Nat.lt_of_succ_le hbound) (Nat.lt_succ_self _) hafter)
  refine Reads.bind hitems fun items _ hshape hclose => ?_
  refine Reads.bind (Reads.expect hclose) fun _ _ _ hrest => ?_
  refine Reads.pure ?_ hrest
  rw [Expr.unspanned, hshape]

/-- The arguments of a call behind a name. -/
theorem reads_call {trees : List Tree} (htrees : ComeAll trees) {bound : Nat} {parser : Parser}
    {ident : String} {span : Span}
    (hbound : (.openParen :: (Tree.lexemesOfAll trees ++ .closeParen :: rest)).length ≤ bound)
    (hshows : parser.Shows (.openParen :: (Tree.lexemesOfAll trees ++ .closeParen :: rest))) :
    Reads (call (exprWithin .standard bound) (.name ident span)) parser
      (·.unspanned = .call ident default (Tree.exprOfAll trees) default) rest := by
  refine Reads.bind (Reads.advance hshows) fun _ _ _ hafter => ?_
  refine Reads.bind (Reads.currentKind hafter) fun kind next hkind hsame => ?_
  have hclose : ∀ {items : List Expr} {last : Parser},
      Expr.unspannedAll items = Tree.exprOfAll trees → last.Shows (.closeParen :: rest) →
      Reads (do
        let closing ← expect .closeParen
        return Expr.call ident span items (span.spanning closing.span)) last
        (·.unspanned = .call ident default (Tree.exprOfAll trees) default) rest := by
    intro items last hitems hlast
    refine Reads.bind (Reads.expect hlast) fun _ _ _ hrest => ?_
    refine Reads.pure ?_ hrest
    rw [Expr.unspanned, hitems]
  cases trees with
  | nil =>
      subst hkind
      exact hclose rfl hsame
  | cons tree others =>
      have hgoes : (kind == .closeParen) = false := by
        obtain ⟨follow, -, hlexemes, -⟩ :=
          reads_separated tree others .closeParen rest (by decide) rfl
        rw [beq_eq_false_iff_ne, hkind, hlexemes]
        exact tree.frontKind_ne follow rfl
      rw [hgoes]
      have hitems := Reads.bounded hsame
        (reads_arguments htrees (by simp) (Nat.lt_of_succ_le hbound) (Nat.lt_succ_self _) hsame)
      exact Reads.bind hitems fun items _ hshape hlast => hclose hshape hlast

end Parse

end Quill
