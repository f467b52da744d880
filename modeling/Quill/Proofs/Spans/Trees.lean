import Quill.Proofs.Parts
import Quill.Proofs.Scanning.Coverage

/-!
# The spans of a tree

A tree is well spanned if every span in it is a stretch of the text between two boundaries, and if
no span of an expression reaches beyond the spans of the expressions around it.  For an expression
it is enough to look at the node and its children: what lies in a child lies in the node.
-/

namespace Quill

namespace Span

/-- The span does not reach beyond another one. -/
structure Inside (inner outer : Span) : Prop where
  start_le : outer.start.offset ≤ inner.start.offset
  stop_le : inner.stop.offset ≤ outer.stop.offset

theorem Inside.refl (span : Span) : span.Inside span :=
  ⟨Nat.le_refl _, Nat.le_refl _⟩

theorem Inside.trans {inner middle outer : Span} (h : inner.Inside middle)
    (houter : middle.Inside outer) : inner.Inside outer :=
  ⟨Nat.le_trans houter.start_le h.start_le, Nat.le_trans h.stop_le houter.stop_le⟩

/-- The span fits the text and lies between two offsets. -/
structure Lies (file : String) (text : List Char) (lower upper : Nat) (span : Span) : Prop where
  fits : span.Fits file text
  above : lower ≤ span.start.offset
  below : span.stop.offset ≤ upper

section Fits

variable {file : String} {text : List Char} {first last : Span}

/-- From a span to one that ends behind its start is a stretch of the text. -/
theorem Fits.spanning (hfirst : first.Fits file text) (hlast : last.Fits file text)
    (hle : first.start.offset ≤ last.stop.offset) : (first.spanning last).Fits file text where
  inFile := by
    have hstart : first.start = ⟨first.start.offset, file⟩ := congrArg Span.start hfirst.inFile
    have hstop : last.stop = ⟨last.stop.offset, file⟩ := congrArg Span.stop hlast.inFile
    show Span.mk first.start last.stop = ⟨⟨first.start.offset, file⟩, ⟨last.stop.offset, file⟩⟩
    rw [← hstart, ← hstop]
  ordered := hle
  inText := hlast.inText
  starts := hfirst.starts
  stops := hlast.stops

theorem Lies.mono {span : Span} {lower upper lower' upper' : Nat}
    (h : span.Lies file text lower upper) (hlower : lower' ≤ lower) (hupper : upper ≤ upper') :
    span.Lies file text lower' upper' :=
  ⟨h.fits, Nat.le_trans hlower h.above, Nat.le_trans h.below hupper⟩

section Spanning

variable {lower middle middle' upper : Nat} (hfirst : first.Lies file text lower middle)
  (hlast : last.Lies file text middle' upper)

include hfirst hlast

/-- From a span to one behind it. -/
theorem Lies.spanning (hle : middle ≤ middle') :
    (first.spanning last).Lies file text lower upper := by
  have hordered := hfirst.fits.ordered
  have hordered' := hlast.fits.ordered
  have hbelow := hfirst.below
  have habove := hlast.above
  exact ⟨hfirst.fits.spanning hlast.fits (by omega), hfirst.above, hlast.below⟩

theorem Lies.first_inside (hle : middle ≤ middle') : first.Inside (first.spanning last) := by
  have hordered := hlast.fits.ordered
  have hbelow := hfirst.below
  have habove := hlast.above
  constructor
  · exact Nat.le_refl _
  · show first.stop.offset ≤ last.stop.offset
    omega

theorem Lies.last_inside (hle : middle ≤ middle') : last.Inside (first.spanning last) := by
  have hordered := hfirst.fits.ordered
  have hbelow := hfirst.below
  have habove := hlast.above
  constructor
  · show first.start.offset ≤ last.start.offset
    omega
  · exact Nat.le_refl _

/-- What lies between two spans lies in the stretch from the one to the other. -/
theorem Lies.between_inside {span : Span} {lower' upper' : Nat}
    (hspan : span.Lies file text lower' upper') (hlower : middle ≤ lower')
    (hupper : upper' ≤ middle') : span.Inside (first.spanning last) := by
  have hordered := hfirst.fits.ordered
  have hordered' := hlast.fits.ordered
  have hbelow := hfirst.below
  have habove := hlast.above
  have hbelow' := hspan.below
  have habove' := hspan.above
  constructor
  · show first.start.offset ≤ span.start.offset
    omega
  · show span.stop.offset ≤ last.stop.offset
    omega

end Spanning

end Fits

end Span

namespace Expr

/-- The expressions that the expression is made of. -/
def children : Expr → List Expr
  | array elements _ => elements
  | call _ _ arguments _ => arguments
  | subscript base index _ => [base, index]
  | binary _ left right _ => [left, right]
  | assign target value _ => [target, value]
  | _ => []

/-- The spans that the expression itself carries; a call has one for the name that is called. -/
def ownSpans : Expr → List Span
  | call _ calleeSpan _ span => [span, calleeSpan]
  | expr => [expr.span]

/-- All spans in the expression. -/
def spans (expr : Expr) : List Span :=
  expr.parts.flatMap ownSpans

theorem partsAll_eq_flatMap (exprs : List Expr) : partsAll exprs = exprs.flatMap parts := by
  induction exprs with
  | nil => rfl
  | cons expr exprs ih => rw [partsAll, ih, List.flatMap_cons]

/-- The parts of an expression are itself and those of its children. -/
theorem parts_eq (expr : Expr) : expr.parts = expr :: expr.children.flatMap parts := by
  cases expr <;> simp [parts, children, partsAll_eq_flatMap]

theorem spans_eq (expr : Expr) : expr.spans = expr.ownSpans ++ expr.children.flatMap spans := by
  rw [spans, parts_eq, List.flatMap_cons, List.flatMap_assoc]
  rfl

theorem span_mem_ownSpans (expr : Expr) : expr.span ∈ expr.ownSpans := by
  cases expr <;> simp [ownSpans, span]

theorem span_mem_spans (expr : Expr) : expr.span ∈ expr.spans := by
  rw [spans_eq]
  exact List.mem_append_left _ expr.span_mem_ownSpans

/-- Every span in the expression fits the text, and none reaches beyond the span of a part that it
lies in. -/
structure Spanned (file : String) (text : List Char) (expr : Expr) : Prop where
  fits : ∀ span ∈ expr.spans, span.Fits file text
  nested : ∀ part ∈ expr.parts, ∀ span ∈ part.spans, span.Inside part.span

namespace Spanned

variable {file : String} {text : List Char} {expr : Expr}

theorem span_fits (h : expr.Spanned file text) : expr.span.Fits file text :=
  h.fits expr.span expr.span_mem_spans

theorem spans_inside (h : expr.Spanned file text) : ∀ span ∈ expr.spans, span.Inside expr.span := by
  apply h.nested expr
  rw [parts_eq]
  exact List.mem_cons_self

/-- An expression is well spanned if its children are and lie in it. -/
theorem of_children (hown : ∀ span ∈ expr.ownSpans, span.Fits file text ∧ span.Inside expr.span)
    (hchildren : ∀ child ∈ expr.children, child.Spanned file text ∧ child.span.Inside expr.span) :
    expr.Spanned file text where
  fits := by
    intro span hspan
    rw [spans_eq, List.mem_append] at hspan
    rcases hspan with hspan | hspan
    · exact (hown span hspan).1
    · obtain ⟨child, hchild, hspan⟩ := List.mem_flatMap.1 hspan
      exact (hchildren child hchild).1.fits span hspan
  nested := by
    intro part hpart span hspan
    rw [parts_eq, List.mem_cons] at hpart
    rcases hpart with rfl | hpart
    -- In the node itself, a span is its own or lies in a child.
    · rw [spans_eq, List.mem_append] at hspan
      rcases hspan with hspan | hspan
      · exact (hown span hspan).2
      · obtain ⟨child, hchild, hspan⟩ := List.mem_flatMap.1 hspan
        obtain ⟨hspanned, hinside⟩ := hchildren child hchild
        exact (hspanned.spans_inside span hspan).trans hinside
    · obtain ⟨child, hchild, hpart⟩ := List.mem_flatMap.1 hpart
      exact (hchildren child hchild).1.nested part hpart span hspan

/-- An expression with one span of its own is well spanned if its children are and lie in it. -/
theorem of_span (hown : expr.ownSpans = [expr.span]) (hfits : expr.span.Fits file text)
    (hchildren : ∀ child ∈ expr.children, child.Spanned file text ∧ child.span.Inside expr.span) :
    expr.Spanned file text := by
  refine of_children ?_ hchildren
  intro span hspan
  rw [hown, List.mem_singleton] at hspan
  rw [hspan]
  exact ⟨hfits, .refl _⟩

end Spanned

/-- The expression is well spanned and lies between two offsets. -/
structure Lies (file : String) (text : List Char) (lower upper : Nat) (expr : Expr) : Prop where
  spanned : expr.Spanned file text
  above : lower ≤ expr.span.start.offset
  below : expr.span.stop.offset ≤ upper

namespace Lies

variable {file : String} {text : List Char} {lower upper lower' upper' : Nat} {expr : Expr}

theorem span (h : expr.Lies file text lower upper) : expr.span.Lies file text lower upper :=
  ⟨h.spanned.span_fits, h.above, h.below⟩

theorem mono (h : expr.Lies file text lower upper) (hlower : lower' ≤ lower)
    (hupper : upper ≤ upper') : expr.Lies file text lower' upper' :=
  ⟨h.spanned, Nat.le_trans hlower h.above, Nat.le_trans h.below hupper⟩

/-- An expression in front of others. -/
theorem cons {middle middle' : Nat} {exprs : List Expr} (h : expr.Lies file text lower middle)
    (hothers : ∀ other ∈ exprs, other.Lies file text middle' upper) (hlower : lower ≤ middle')
    (hupper : middle ≤ upper) : ∀ other ∈ expr :: exprs, other.Lies file text lower upper :=
  List.forall_mem_cons.2 ⟨h.mono (Nat.le_refl _) hupper,
    fun other hother => (hothers other hother).mono hlower (Nat.le_refl _)⟩

/-- An expression from one child to another one behind it. -/
theorem of_pair {left right : Expr} {middle middle' : Nat} (hown : expr.ownSpans = [expr.span])
    (hchildren : expr.children = [left, right])
    (hspan : expr.span = left.span.spanning right.span)
    (hleft : left.Lies file text lower middle) (hright : right.Lies file text middle' upper)
    (hle : middle ≤ middle') : expr.Lies file text lower upper := by
  have hlies := hleft.span.spanning hright.span hle
  rw [← hspan] at hlies
  refine ⟨.of_span hown hlies.fits ?_, hlies.above, hlies.below⟩
  intro child hchild
  rw [hchildren, List.mem_cons, List.mem_singleton] at hchild
  rw [hspan]
  rcases hchild with rfl | rfl
  · exact ⟨hleft.spanned, hleft.span.first_inside hright.span hle⟩
  · exact ⟨hright.spanned, hleft.span.last_inside hright.span hle⟩

end Lies

end Expr

namespace Stmt

/-- The blocks of the statement, the body of a function included. -/
def blocks : Stmt → List (Block Stmt)
  | function decl => [decl.body]
  | branch first others otherwise => (first :: others).map (·.body) ++ otherwise.toList
  | loop _ body _ | range _ _ _ body _ => [body]
  | block inner => [inner]
  | _ => []

/-- The spans that the statement itself carries; a branch has one for each arm. -/
def ownSpans : Stmt → List Span
  | branch first others _ => (first :: others).map (·.span)
  | stmt => [stmt.span]

/-- One thing is true of the expressions of the statement and of all statements in its blocks, and
another of the spans of these statements and blocks. -/
inductive Everywhere (onExpr : Expr → Prop) (onSpan : Span → Prop) : Stmt → Prop
  | intro {stmt : Stmt} (exprs : ∀ expr ∈ stmt.exprs, onExpr expr)
    (spans : ∀ span ∈ stmt.ownSpans, onSpan span)
    (blocks : ∀ block ∈ stmt.blocks, onSpan block.span)
    (inner : ∀ block ∈ stmt.blocks, ∀ other ∈ block.body, Everywhere onExpr onSpan other) :
    Everywhere onExpr onSpan stmt

end Stmt

/-- One thing is true of the expressions in the block, and another of its span and the spans in
it. -/
structure Block.Everywhere (onExpr : Expr → Prop) (onSpan : Span → Prop) (block : Block Stmt) :
    Prop where
  span : onSpan block.span
  body : ∀ stmt ∈ block.body, stmt.Everywhere onExpr onSpan

/-- One thing is true of the expressions in the arm, and another of its span and the spans in it. -/
structure Arm.Everywhere (onExpr : Expr → Prop) (onSpan : Span → Prop) (arm : Arm Stmt) : Prop where
  condition : onExpr arm.condition
  span : onSpan arm.span
  body : arm.body.Everywhere onExpr onSpan

namespace Stmt

variable {onExpr : Expr → Prop} {onSpan : Span → Prop} {stmt : Stmt}

theorem Everywhere.of_blocks (hexprs : ∀ expr ∈ stmt.exprs, onExpr expr)
    (hspans : ∀ span ∈ stmt.ownSpans, onSpan span)
    (hblocks : ∀ block ∈ stmt.blocks, block.Everywhere onExpr onSpan) :
    stmt.Everywhere onExpr onSpan :=
  .intro hexprs hspans (fun block hblock => (hblocks block hblock).span)
    fun block hblock => (hblocks block hblock).body

/-- A statement with one span of its own. -/
theorem Everywhere.of_span (hown : stmt.ownSpans = [stmt.span])
    (hexprs : ∀ expr ∈ stmt.exprs, onExpr expr) (hspan : onSpan stmt.span)
    (hblocks : ∀ block ∈ stmt.blocks, block.Everywhere onExpr onSpan) :
    stmt.Everywhere onExpr onSpan := by
  refine of_blocks hexprs ?_ hblocks
  rw [hown]
  exact List.forall_mem_singleton.2 hspan

theorem Everywhere.mono {onExpr' : Expr → Prop} {onSpan' : Span → Prop}
    (hexpr : ∀ expr, onExpr expr → onExpr' expr) (hspan : ∀ span, onSpan span → onSpan' span)
    (h : stmt.Everywhere onExpr onSpan) : stmt.Everywhere onExpr' onSpan' := by
  induction h with
  | intro hexprs hspans hblocks _ ih =>
      exact .intro (fun expr hmem => hexpr expr (hexprs expr hmem))
        (fun span hmem => hspan span (hspans span hmem))
        (fun block hmem => hspan block.span (hblocks block hmem)) ih

theorem sizeOf_lt_of_mem_blocks {block : Block Stmt} (h : block ∈ stmt.blocks) :
    sizeOf block < sizeOf stmt := by
  cases stmt with
  | function decl =>
      obtain rfl := List.mem_singleton.1 h
      obtain ⟨id, name, parameters, returnType, body, span⟩ := decl
      simp only [function.sizeOf_spec, FnDecl.mk.sizeOf_spec]
      omega
  | branch first others otherwise =>
      simp only [branch.sizeOf_spec]
      rcases List.mem_append.1 h with hmem | hlast
      · obtain ⟨arm, harm, rfl⟩ := List.mem_map.1 hmem
        have hbody : sizeOf arm.body < sizeOf arm := by
          obtain ⟨condition, body, span⟩ := arm
          simp only [Arm.mk.sizeOf_spec]
          omega
        rcases List.mem_cons.1 harm with rfl | hothers
        · omega
        · have harms := List.sizeOf_lt_of_mem hothers
          omega
      · obtain rfl := Option.mem_toList.1 hlast
        simp only [Option.some.sizeOf_spec]
        omega
  | loop condition body span =>
      obtain rfl := List.mem_singleton.1 h
      simp only [loop.sizeOf_spec]
      omega
  | range counter lower upper body span =>
      obtain rfl := List.mem_singleton.1 h
      simp only [range.sizeOf_spec]
      omega
  | block inner =>
      obtain rfl := List.mem_singleton.1 h
      simp only [Stmt.block.sizeOf_spec]
      omega
  | _ => cases h

/-- What is true of all expressions, and of all spans, is true everywhere. -/
theorem everywhere_of_forall (hexpr : ∀ expr, onExpr expr) (hspan : ∀ span, onSpan span)
    (stmt : Stmt) : stmt.Everywhere onExpr onSpan := by
  refine .intro (fun expr _ => hexpr expr) (fun span _ => hspan span)
    (fun block _ => hspan block.span) fun block hblock other hother => ?_
  have hsmaller : sizeOf other < sizeOf stmt := by
    obtain ⟨body, span⟩ := block
    have hbody : sizeOf other < sizeOf body := List.sizeOf_lt_of_mem hother
    have hwhole := sizeOf_lt_of_mem_blocks hblock
    simp only [Block.mk.sizeOf_spec] at hwhole
    omega
  exact everywhere_of_forall hexpr hspan other
termination_by sizeOf stmt

/-- A branch is made of its arms and its last block. -/
theorem everywhere_branch {first : Arm Stmt} {others : List (Arm Stmt)}
    {otherwise : Option (Block Stmt)} :
    (branch first others otherwise).Everywhere onExpr onSpan ↔
      (∀ arm ∈ first :: others, arm.Everywhere onExpr onSpan) ∧
        ∀ block ∈ otherwise, block.Everywhere onExpr onSpan := by
  constructor
  · rintro ⟨hexprs, hspans, hblocks, hinner⟩
    have hblock : ∀ block ∈ (branch first others otherwise).blocks,
        block.Everywhere onExpr onSpan :=
      fun block hmem => ⟨hblocks block hmem, hinner block hmem⟩
    constructor
    · intro arm harm
      have hcondition : arm.condition ∈ (first :: others).map (·.condition) :=
        List.mem_map_of_mem harm
      exact ⟨hexprs _ hcondition, hspans _ (List.mem_map_of_mem harm),
        hblock _ (List.mem_append_left _ (List.mem_map_of_mem harm))⟩
    · intro block hmem
      exact hblock block (List.mem_append_right _ (Option.mem_toList.2 hmem))
  · rintro ⟨harms, hlast⟩
    apply Everywhere.of_blocks
    · intro expr hexpr
      have hmap : expr ∈ (first :: others).map (·.condition) := hexpr
      obtain ⟨arm, harm, rfl⟩ := List.mem_map.1 hmap
      exact (harms arm harm).condition
    · intro span hspan
      obtain ⟨arm, harm, rfl⟩ := List.mem_map.1 hspan
      exact (harms arm harm).span
    · intro block hblock
      rcases List.mem_append.1 hblock with hblock | hblock
      · obtain ⟨arm, harm, rfl⟩ := List.mem_map.1 hblock
        exact (harms arm harm).body
      · exact hlast block (Option.mem_toList.1 hblock)

/-- Every expression in the statement is well spanned, and every span in it fits the text. -/
abbrev Spanned (file : String) (text : List Char) (stmt : Stmt) : Prop :=
  stmt.Everywhere (Expr.Spanned file text) (Span.Fits file text)

end Stmt

/-- Every expression in the block is well spanned, and every span in it fits the text. -/
abbrev Block.Spanned (file : String) (text : List Char) (block : Block Stmt) : Prop :=
  block.Everywhere (Expr.Spanned file text) (Span.Fits file text)

/-- The condition and the block of the arm are well spanned, and its own span fits the text. -/
abbrev Arm.Spanned (file : String) (text : List Char) (arm : Arm Stmt) : Prop :=
  arm.Everywhere (Expr.Spanned file text) (Span.Fits file text)

end Quill
