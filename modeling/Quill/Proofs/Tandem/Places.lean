import Quill.Parser.Program

/-!
# Places in a program

A program says what it says wherever it stands.  A `Relocation` gives every place another name, and
`moved` applies it to all spans of a tree and to the numbers of its functions.  Moved to `nowhere`,
two programs are equal if they differ in their spans only; moved by `shift`, a program is the one
that stands behind a number of further bytes.

Two things are `Matched` by a pair of relocations if they are the same once each of them is moved.
Every constructor of the trees is matched part by part.
-/

namespace Quill

/-- New names for places: for the offsets in a file, for the files, and for the numbers of the
sources. -/
structure Relocation where
  offset : Nat → Nat
  file : String → String
  source : Nat → Nat

namespace Relocation

/-- Every place keeps its name. -/
def still : Relocation := ⟨id, id, id⟩

/-- All places are forgotten, and only the number of the source is known. -/
def nowhere : Relocation := ⟨fun _ => 0, fun _ => "", id⟩

/-- Every offset moves on by a number of bytes. -/
def shift (bytes : Nat) : Relocation := ⟨(· + bytes), id, id⟩

end Relocation

/-- What stands at a place, or consists of such things. -/
class Located (α : Type) where
  moved : Relocation → α → α

/-- The position under its new name. -/
def Position.moved (move : Relocation) (position : Position) : Position :=
  ⟨move.offset position.offset, move.file position.file⟩

/-- The span between the new positions. -/
def Span.moved (move : Relocation) (span : Span) : Span :=
  ⟨span.start.moved move, span.stop.moved move⟩

/-- The token at its new place.  What separates it from its neighbours is forgotten. -/
def Token.moved (move : Relocation) (token : Token) : Token :=
  ⟨token.kind, token.value, token.span.moved move, .adjacent, .adjacent⟩

/-- The problem at its new place. -/
def Diagnostic.moved (move : Relocation) (diagnostic : Diagnostic) : Diagnostic :=
  { diagnostic with span := diagnostic.span.moved move }

/-- The number of a function at its new place. -/
def FnId.moved (move : Relocation) (id : FnId) : FnId :=
  ⟨move.source id.source, move.offset id.offset⟩

namespace Expr

mutual

/-- The expression at its new place. -/
def moved (move : Relocation) : Expr → Expr
  | int value span => int value (span.moved move)
  | float value span => float value (span.moved move)
  | string value span => string value (span.moved move)
  | bool value span => bool value (span.moved move)
  | array elements span => array (movedAll move elements) (span.moved move)
  | name ident span => name ident (span.moved move)
  | call callee calleeSpan arguments span =>
    call callee (calleeSpan.moved move) (movedAll move arguments) (span.moved move)
  | subscript base index span => subscript (base.moved move) (index.moved move) (span.moved move)
  | binary operator left right span =>
    binary operator (left.moved move) (right.moved move) (span.moved move)
  | assign target value span => assign (target.moved move) (value.moved move) (span.moved move)

/-- The expressions at their new places. -/
def movedAll (move : Relocation) : List Expr → List Expr
  | [] => []
  | expr :: rest => expr.moved move :: movedAll move rest

end

end Expr

namespace Stmt

mutual

/-- The statement at its new place. -/
def moved (move : Relocation) : Stmt → Stmt
  | function decl => function (movedFunction move decl)
  | ret value span => ret (value.moved move) (span.moved move)
  | bind name value span => bind name (value.moved move) (span.moved move)
  | expr value => expr (value.moved move)
  | branch first others otherwise =>
    branch (movedArm move first) (movedArms move others) (movedLast move otherwise)
  | loop condition body span =>
    loop (condition.moved move) (movedBlock move body) (span.moved move)
  | range counter lower upper body span =>
    range counter (lower.moved move) (upper.moved move) (movedBlock move body) (span.moved move)
  | block inner => block (movedBlock move inner)

/-- The function at its new place. -/
def movedFunction (move : Relocation) : FnDecl Stmt → FnDecl Stmt
  | ⟨id, name, parameters, returnType, body, span⟩ =>
    ⟨id.moved move, name, parameters, returnType, movedBlock move body, span.moved move⟩

/-- The arm of a branch at its new place. -/
def movedArm (move : Relocation) : Arm Stmt → Arm Stmt
  | ⟨condition, body, span⟩ => ⟨condition.moved move, movedBlock move body, span.moved move⟩

/-- The arms of a branch at their new places. -/
def movedArms (move : Relocation) : List (Arm Stmt) → List (Arm Stmt)
  | [] => []
  | arm :: rest => movedArm move arm :: movedArms move rest

/-- The last block of a branch at its new place. -/
def movedLast (move : Relocation) : Option (Block Stmt) → Option (Block Stmt)
  | some inner => some (movedBlock move inner)
  | none => none

/-- The block at its new place. -/
def movedBlock (move : Relocation) : Block Stmt → Block Stmt
  | ⟨body, span⟩ => ⟨movedAll move body, span.moved move⟩

/-- The statements at their new places. -/
def movedAll (move : Relocation) : List Stmt → List Stmt
  | [] => []
  | stmt :: rest => stmt.moved move :: movedAll move rest

end

end Stmt

namespace Located

instance : Located Span := ⟨Span.moved⟩
instance : Located Token := ⟨Token.moved⟩
instance : Located Expr := ⟨Expr.moved⟩
instance : Located Stmt := ⟨Stmt.moved⟩
instance : Located (Arm Stmt) := ⟨Stmt.movedArm⟩
instance : Located (Block Stmt) := ⟨Stmt.movedBlock⟩

instance : Located TokenKind := ⟨fun _ kind => kind⟩
instance : Located Bool := ⟨fun _ flag => flag⟩
instance : Located Ty := ⟨fun _ type => type⟩
instance : Located Parameter := ⟨fun _ parameter => parameter⟩
instance : Located Operator := ⟨fun _ operator => operator⟩
instance : Located OperandForm := ⟨fun _ form => form⟩

instance {α : Type} [Located α] : Located (List α) := ⟨fun move => List.map (moved move)⟩
instance {α : Type} [Located α] : Located (Option α) := ⟨fun move => Option.map (moved move)⟩
instance {α β : Type} [Located α] [Located β] : Located (α × β) :=
  ⟨fun move => Prod.map (moved move) (moved move)⟩

end Located

/-- What stands nowhere is the same wherever it is moved. -/
class Placeless (α : Type) [Located α] : Prop where
  moved_eq : ∀ (move : Relocation) (thing : α), Located.moved move thing = thing

instance : Placeless TokenKind := ⟨fun _ _ => rfl⟩
instance : Placeless Bool := ⟨fun _ _ => rfl⟩
instance : Placeless Ty := ⟨fun _ _ => rfl⟩
instance : Placeless Parameter := ⟨fun _ _ => rfl⟩
instance : Placeless Operator := ⟨fun _ _ => rfl⟩
instance : Placeless OperandForm := ⟨fun _ _ => rfl⟩
instance {α : Type} [Located α] [Placeless α] : Placeless (List α) :=
  ⟨fun move things => (List.map_congr_left fun thing _ => Placeless.moved_eq move thing).trans
    things.map_id⟩

/-! ### Moving the parts -/

@[simp] theorem Expr.movedAll_eq (move : Relocation) (exprs : List Expr) :
    movedAll move exprs = Located.moved move exprs := by
  induction exprs with
  | nil => rfl
  | cons expr rest ih =>
      rw [movedAll, ih]
      rfl

@[simp] theorem Stmt.movedAll_eq (move : Relocation) (stmts : List Stmt) :
    movedAll move stmts = Located.moved move stmts := by
  induction stmts with
  | nil => rfl
  | cons stmt rest ih =>
      rw [movedAll, ih]
      rfl

@[simp] theorem Stmt.movedArms_eq (move : Relocation) (arms : List (Arm Stmt)) :
    movedArms move arms = Located.moved move arms := by
  induction arms with
  | nil => rfl
  | cons arm rest ih =>
      rw [movedArms, ih]
      rfl

@[simp] theorem Stmt.movedLast_eq (move : Relocation) (otherwise : Option (Block Stmt)) :
    movedLast move otherwise = Located.moved move otherwise := by
  cases otherwise <;> rfl

@[simp] theorem Expr.span_moved (move : Relocation) (expr : Expr) :
    (expr.moved move).span = expr.span.moved move := by
  cases expr <;> rfl

@[simp] theorem Expr.isName_moved (move : Relocation) (expr : Expr) :
    (expr.moved move).isName = expr.isName := by
  cases expr <;> rfl

@[simp] theorem Diagnostic.moved_of (move : Relocation) (problem : Problem) (span : Span) :
    (Diagnostic.of problem span).moved move = .of problem (span.moved move) := rfl

/-! ### Staying where one is -/

@[simp] theorem Span.moved_still (span : Span) : span.moved .still = span := rfl

@[simp] theorem FnId.moved_still (id : FnId) : id.moved .still = id := rfl

mutual

theorem Expr.moved_still : (expr : Expr) → expr.moved .still = expr
  | .int _ _ | .float _ _ | .string _ _ | .bool _ _ | .name _ _ => rfl
  | .array elements span => by rw [moved, movedAll_still elements, span.moved_still]
  | .call callee calleeSpan arguments span => by
    rw [moved, movedAll_still arguments, calleeSpan.moved_still, span.moved_still]
  | .subscript base index span => by
    rw [moved, base.moved_still, index.moved_still, span.moved_still]
  | .binary operator left right span => by
    rw [moved, left.moved_still, right.moved_still, span.moved_still]
  | .assign target value span => by
    rw [moved, target.moved_still, value.moved_still, span.moved_still]

theorem Expr.movedAll_still : (exprs : List Expr) → movedAll .still exprs = exprs
  | [] => rfl
  | expr :: rest => by rw [movedAll, expr.moved_still, movedAll_still rest]

end

mutual

theorem Stmt.moved_still : (stmt : Stmt) → stmt.moved .still = stmt
  | .function decl => by rw [moved, movedFunction_still decl]
  | .ret value span => by rw [moved, value.moved_still, span.moved_still]
  | .bind name value span => by rw [moved, value.moved_still, span.moved_still]
  | .expr value => by rw [moved, value.moved_still]
  | .branch first others otherwise => by
    rw [moved, movedArm_still first, movedArms_still others, movedLast_still otherwise]
  | .loop condition body span => by
    rw [moved, condition.moved_still, movedBlock_still body, span.moved_still]
  | .range counter lower upper body span => by
    rw [moved, lower.moved_still, upper.moved_still, movedBlock_still body, span.moved_still]
  | .block inner => by rw [moved, movedBlock_still inner]

theorem Stmt.movedFunction_still : (decl : FnDecl Stmt) → movedFunction .still decl = decl
  | ⟨id, name, parameters, returnType, body, span⟩ => by
    rw [movedFunction, id.moved_still, movedBlock_still body, span.moved_still]

theorem Stmt.movedArm_still : (arm : Arm Stmt) → movedArm .still arm = arm
  | ⟨condition, body, span⟩ => by
    rw [movedArm, condition.moved_still, movedBlock_still body, span.moved_still]

theorem Stmt.movedArms_still : (arms : List (Arm Stmt)) → movedArms .still arms = arms
  | [] => rfl
  | arm :: rest => by rw [movedArms, movedArm_still arm, movedArms_still rest]

theorem Stmt.movedLast_still :
    (otherwise : Option (Block Stmt)) → movedLast .still otherwise = otherwise
  | some inner => by rw [movedLast, movedBlock_still inner]
  | none => rfl

theorem Stmt.movedBlock_still : (inner : Block Stmt) → movedBlock .still inner = inner
  | ⟨body, span⟩ => by rw [movedBlock, movedAll_still body, span.moved_still]

theorem Stmt.movedAll_still : (stmts : List Stmt) → movedAll .still stmts = stmts
  | [] => rfl
  | stmt :: rest => by rw [movedAll, stmt.moved_still, movedAll_still rest]

end

/-! ### Matching -/

/-- Two ways of moving, one for each of two programs. -/
structure Pairing where
  left : Relocation
  right : Relocation

namespace Pairing

variable (pair : Pairing)

/-- Two things are the same once they are moved. -/
def Matched {α : Type} [Located α] (first second : α) : Prop :=
  Located.moved pair.left first = Located.moved pair.right second

variable {pair}

theorem matched_iff_eq {α : Type} [Located α] [Placeless α] {first second : α} :
    pair.Matched first second ↔ first = second := by
  rw [Matched, Placeless.moved_eq, Placeless.moved_eq]

@[simp] theorem matched_nil {α : Type} [Located α] : pair.Matched ([] : List α) [] := rfl

@[simp] theorem matched_cons {α : Type} [Located α] {first second : α} {rest others : List α} :
    pair.Matched (first :: rest) (second :: others) ↔
      pair.Matched first second ∧ pair.Matched rest others :=
  List.cons_eq_cons

@[simp] theorem matched_none {α : Type} [Located α] : pair.Matched (none : Option α) none := rfl

@[simp] theorem matched_some {α : Type} [Located α] {first second : α} :
    pair.Matched (some first) (some second) ↔ pair.Matched first second :=
  Option.some_inj

@[simp] theorem matched_pair {α β : Type} [Located α] [Located β] {a c : α} {b d : β} :
    pair.Matched (a, b) (c, d) ↔ pair.Matched a c ∧ pair.Matched b d :=
  Prod.mk.injEq .. ▸ .rfl

theorem Matched.toList_append {α : Type} [Located α] {first second : Option α}
    {rest others : List α} (hfirst : pair.Matched first second)
    (hrest : pair.Matched rest others) :
    pair.Matched (first.toList ++ rest) (second.toList ++ others) := by
  cases first with
  | none =>
      cases second with
      | none => exact hrest
      | some => cases hfirst
  | some first =>
      cases second with
      | none => cases hfirst
      | some second => exact matched_cons.2 ⟨matched_some.1 hfirst, hrest⟩

section Trees

variable {first first' last last' : Span} {base base' index index' : Expr}
  {exprs exprs' : List Expr} {stmts stmts' : List Stmt} {body body' : Block Stmt}
  {arm arm' : Arm Stmt} {arms arms' : List (Arm Stmt)} {otherwise otherwise' : Option (Block Stmt)}

theorem Matched.spanning (hfirst : pair.Matched first first') (hlast : pair.Matched last last') :
    pair.Matched (first.spanning last) (first'.spanning last') := by
  change (Located.moved pair.left first).spanning (Located.moved pair.left last) = _
  rw [hfirst, hlast]
  rfl

theorem Matched.span (h : pair.Matched base base') : pair.Matched base.span base'.span := by
  have hspan := congrArg Expr.span (show base.moved pair.left = base'.moved pair.right from h)
  rwa [Expr.span_moved, Expr.span_moved] at hspan

theorem Matched.isName (h : pair.Matched base base') : base.isName = base'.isName := by
  have hname := congrArg Expr.isName (show base.moved pair.left = base'.moved pair.right from h)
  rwa [Expr.isName_moved, Expr.isName_moved] at hname

/-- Only a name is matched by a name. -/
theorem Matched.eq_name {ident : String} (h : pair.Matched (.name ident first) base') :
    ∃ first', base' = .name ident first' ∧ pair.Matched first first' := by
  cases base' with
  | name other last =>
      obtain ⟨rfl, hspan⟩ := Expr.name.inj h
      exact ⟨last, rfl, hspan⟩
  | _ => cases h

@[simp] theorem matched_array :
    pair.Matched (Expr.array exprs first) (.array exprs' first') ↔
      pair.Matched exprs exprs' ∧ pair.Matched first first' := by
  simp [Matched, Located.moved, Expr.moved]

@[simp] theorem matched_call {callee callee' : String} :
    pair.Matched (Expr.call callee first exprs last) (.call callee' first' exprs' last') ↔
      callee = callee' ∧ pair.Matched first first' ∧ pair.Matched exprs exprs' ∧
        pair.Matched last last' := by
  simp [Matched, Located.moved, Expr.moved]

@[simp] theorem matched_subscript :
    pair.Matched (Expr.subscript base index first) (.subscript base' index' first') ↔
      pair.Matched base base' ∧ pair.Matched index index' ∧ pair.Matched first first' := by
  simp [Matched, Located.moved, Expr.moved]

@[simp] theorem matched_binary {operator operator' : Operator} :
    pair.Matched (Expr.binary operator base index first) (.binary operator' base' index' first') ↔
      operator = operator' ∧ pair.Matched base base' ∧ pair.Matched index index' ∧
        pair.Matched first first' := by
  simp [Matched, Located.moved, Expr.moved]

@[simp] theorem matched_assign :
    pair.Matched (Expr.assign base index first) (.assign base' index' first') ↔
      pair.Matched base base' ∧ pair.Matched index index' ∧ pair.Matched first first' := by
  simp [Matched, Located.moved, Expr.moved]

@[simp] theorem matched_block :
    pair.Matched (⟨stmts, first⟩ : Block Stmt) ⟨stmts', first'⟩ ↔
      pair.Matched stmts stmts' ∧ pair.Matched first first' := by
  simp [Matched, Located.moved, Stmt.movedBlock]

@[simp] theorem matched_arm :
    pair.Matched (⟨base, body, first⟩ : Arm Stmt) ⟨base', body', first'⟩ ↔
      pair.Matched base base' ∧ pair.Matched body body' ∧ pair.Matched first first' := by
  simp [Matched, Located.moved, Stmt.movedArm]

@[simp] theorem matched_ret :
    pair.Matched (Stmt.ret base first) (.ret base' first') ↔
      pair.Matched base base' ∧ pair.Matched first first' := by
  simp [Matched, Located.moved, Stmt.moved]

@[simp] theorem matched_bind {name name' : String} :
    pair.Matched (Stmt.bind name base first) (.bind name' base' first') ↔
      name = name' ∧ pair.Matched base base' ∧ pair.Matched first first' := by
  simp [Matched, Located.moved, Stmt.moved]

@[simp] theorem matched_expr :
    pair.Matched (Stmt.expr base) (.expr base') ↔ pair.Matched base base' := by
  simp [Matched, Located.moved, Stmt.moved]

@[simp] theorem matched_branch :
    pair.Matched (Stmt.branch arm arms otherwise) (.branch arm' arms' otherwise') ↔
      pair.Matched arm arm' ∧ pair.Matched arms arms' ∧ pair.Matched otherwise otherwise' := by
  simp [Matched, Located.moved, Stmt.moved]

@[simp] theorem matched_loop :
    pair.Matched (Stmt.loop base body first) (.loop base' body' first') ↔
      pair.Matched base base' ∧ pair.Matched body body' ∧ pair.Matched first first' := by
  simp [Matched, Located.moved, Stmt.moved]

@[simp] theorem matched_range {counter counter' : String} :
    pair.Matched (Stmt.range counter base index body first)
        (.range counter' base' index' body' first') ↔
      counter = counter' ∧ pair.Matched base base' ∧ pair.Matched index index' ∧
        pair.Matched body body' ∧ pair.Matched first first' := by
  simp [Matched, Located.moved, Stmt.moved]

@[simp] theorem matched_blockStmt :
    pair.Matched (Stmt.block body) (.block body') ↔ pair.Matched body body' := by
  simp [Matched, Located.moved, Stmt.moved]

/-- A declared function is numbered by its source and by the offset of its first word. -/
theorem matched_function {source source' : Nat} {name : String} {params : List Parameter}
    {type : Ty} (hsource : pair.left.source source = pair.right.source source')
    (hfirst : pair.Matched first first') (hbody : pair.Matched body body')
    (hlast : pair.Matched last last') :
    pair.Matched
      (Stmt.function ⟨⟨source, first.start.offset⟩, name, params, type, body, last⟩)
      (.function ⟨⟨source', first'.start.offset⟩, name, params, type, body', last'⟩) := by
  have hoffset : pair.left.offset first.start.offset = pair.right.offset first'.start.offset :=
    congrArg (·.start.offset) hfirst
  change Stmt.function ⟨⟨pair.left.source source, _⟩, name, params, type,
      Stmt.movedBlock pair.left body, last.moved pair.left⟩ = Stmt.function _
  rw [hsource, hoffset, show Stmt.movedBlock pair.left body = _ from hbody,
    show last.moved pair.left = _ from hlast]
  rfl

end Trees

section Tokens

variable {token token' : Token}

theorem Matched.kind (h : pair.Matched token token') : token.kind = token'.kind := by
  have hmoved : token.moved pair.left = token'.moved pair.right := h
  exact (Token.mk.inj hmoved).1

theorem Matched.value (h : pair.Matched token token') : token.value = token'.value := by
  have hmoved : token.moved pair.left = token'.moved pair.right := h
  exact (Token.mk.inj hmoved).2.1

theorem Matched.tokenSpan (h : pair.Matched token token') :
    pair.Matched token.span token'.span :=
  congrArg Token.span h

end Tokens

end Pairing

end Quill
