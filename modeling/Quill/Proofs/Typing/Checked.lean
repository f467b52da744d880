import Quill.Proofs.Checking
import Quill.Proofs.Typing.Fragment

/-!
# Typings of function bodies

The checker meets the names of a function one after the other.  A body that binds its names first
can be judged by all of them at once: there is one assignment of types to names under which every
statement of the body is in order, no matter in which order its statements run.  This is the typing
that a run is compared with.
-/

namespace Quill

/-! ### Expressions depend on the names in them -/

mutual

/-- Two scopes that agree on the names in an expression give it one type. -/
theorem infer_congr {first second : Scope Ty} : (expr : Expr) →
    (∀ name ∈ expr.mentions, first.get? name = second.get? name) →
    infer first expr = infer second expr
  | .int _ _, _ | .float _ _, _ | .string _ _, _ | .bool _ _, _ => rfl
  | .name ident span, h => by
      rw [infer, infer, h ident (by simp)]
  | .array elements span, h => by
      rw [infer, infer, inferAll_congr elements fun name hmem => h name (by simpa using hmem)]
  | .call callee calleeSpan arguments span, h => by
      rw [infer, infer, h callee (by simp), inferAll_congr arguments fun name hmem =>
        h name (by simp [hmem])]
  | .subscript base index span, h => by
      rw [infer, infer, infer_congr base fun name hmem => h name (by simp [hmem]),
        infer_congr index fun name hmem => h name (by simp [hmem])]
  | .binary operator left right span, h => by
      rw [infer, infer, infer_congr left fun name hmem => h name (by simp [hmem]),
        infer_congr right fun name hmem => h name (by simp [hmem])]
  | .assign target value span, h => by
      rw [infer, infer, infer_congr target fun name hmem => h name (by simp [hmem]),
        infer_congr value fun name hmem => h name (by simp [hmem])]

theorem inferAll_congr {first second : Scope Ty} : (exprs : List Expr) →
    (∀ name ∈ Expr.mentionsAll exprs, first.get? name = second.get? name) →
    inferAll first exprs = inferAll second exprs
  | [], _ => rfl
  | expr :: exprs, h => by
      rw [inferAll, inferAll, infer_congr expr fun name hmem => h name (by simp [hmem]),
        inferAll_congr exprs fun name hmem => h name (by simp [hmem])]

end

/-! ### The scope of a body -/

/-- The scope of the checker inside the body of a function at the top. -/
def bodyScope (globals locals : Bindings Ty) (result : Ty) (serial pushed : Nat) : Scope Ty :=
  ⟨globals, #[].push ⟨locals, some result, Scope.global, serial⟩, pushed⟩

section Body

variable {globals locals : Bindings Ty} {result type : Ty} {serial pushed : Nat} {name : String}

theorem bodyScope_get? :
    (bodyScope globals locals result serial pushed).get? name =
      locals[name]?.or globals[name]? :=
  Scope.get?_overGlobals rfl

theorem bodyScope_getLocal? :
    (bodyScope globals locals result serial pushed).getLocal? name = locals[name]? := by
  simp [bodyScope, Scope.getLocal?, Scope.current, Scope.getIn?, Scope.bindingsOf]

theorem bodyScope_context :
    (bodyScope globals locals result serial pushed).context = some result := by
  unfold Scope.context bodyScope
  rw [Scope.chain_overGlobals rfl]
  simp [Scope.frame?]

theorem bodyScope_insert :
    (bodyScope globals locals result serial pushed).insert name type =
      bodyScope globals (locals.insert name type) result serial pushed :=
  Scope.insert_push

end Body

/-- The expression has the type, under an assignment of types to the local names. -/
def Expr.HasType (globals locals : Bindings Ty) (expr : Expr) (type : Ty) : Prop :=
  (infer (bodyScope globals locals .void 0 0) expr).problems = [] ∧
    (infer (bodyScope globals locals .void 0 0) expr).type = type

/-- The statement itself, apart from those in its blocks, is in order under an assignment of types
to the local names, in a function with the given result. -/
def Stmt.TypedIn (globals locals : Bindings Ty) (result : Ty) : Stmt → Prop
  | .function _ => False
  | .ret value _ => value.HasType globals locals result
  | .bind name value _ => ∃ type, value.HasType globals locals type ∧ locals[name]? = some type
  | .expr value => ∃ type, value.HasType globals locals type
  | .branch first others _ =>
    first.condition.HasType globals locals .bool ∧
      ∀ arm ∈ others, arm.condition.HasType globals locals .bool
  | .loop condition _ _ => condition.HasType globals locals .bool
  | .range counter lower upper _ _ =>
    lower.HasType globals locals .int ∧ upper.HasType globals locals .int ∧
      locals[counter]? = some .int
  | .block _ => True

/-! ### How the names of a body get their types -/

/-- Names keep their types. -/
def Grows (before after : Bindings Ty) : Prop :=
  ∀ (name : String) (type : Ty), before[name]? = some type → after[name]? = some type

theorem Grows.refl (locals : Bindings Ty) : Grows locals locals :=
  fun _ _ h => h

theorem Grows.trans {before middle after : Bindings Ty} (hfirst : Grows before middle)
    (hsecond : Grows middle after) : Grows before after :=
  fun name type h => hsecond name type (hfirst name type h)

theorem Grows.mem {before after : Bindings Ty} {name : String} (h : Grows before after)
    (hmem : name ∈ before) : name ∈ after := by
  have hold := Std.ExtTreeMap.getElem?_eq_some_getElem hmem
  exact Scope.mem_of_getElem? (h name _ hold)

/-- The variables of counting loops are integers. -/
def CountersInt (counters : List String) (locals : Bindings Ty) : Prop :=
  ∀ counter ∈ counters, ∀ type, locals[counter]? = some type → type = .int

/-- The statement binds the name. -/
def Stmt.Binds (stmt : Stmt) (name : String) : Prop :=
  stmt.bound? = some name ∨ stmt.counter? = some name

/-- The statement declares no function, and its name is a counter only if it is a counting loop. -/
structure Stmt.Apart (counters : List String) (stmt : Stmt) : Prop where
  flat : stmt.decl? = none
  bound : ∀ name, stmt.bound? = some name → name ∉ counters
  counter : ∀ name, stmt.counter? = some name → name ∈ counters

/-- An expression that mentions only bound names has one type before and after others are bound. -/
theorem infer_bodyScope_eq {globals before locals : Bindings Ty} {result : Ty}
    {serial pushed : Nat} {names bound : List String} {expr : Expr}
    (hgrows : Grows before locals) (hnames : ∀ name ∈ locals, name ∈ names)
    (hbound : ∀ name ∈ bound, name ∈ before) (hscoped : expr.wellScoped names bound = true) :
    infer (bodyScope globals before result serial pushed) expr =
      infer (bodyScope globals locals .void 0 0) expr := by
  refine infer_congr expr fun name hmention => ?_
  rw [bodyScope_get?, bodyScope_get?]
  -- A name that is or becomes local is bound already where it is mentioned; others are global.
  by_cases hlocal : name ∈ locals
  · have hbefore := hbound name (Expr.wellScoped_iff.mp hscoped name hmention (hnames name hlocal))
    have hold := Std.ExtTreeMap.getElem?_eq_some_getElem hbefore
    rw [hold, hgrows name _ hold]
  · have hbefore : name ∉ before := fun hmem => hlocal (hgrows.mem hmem)
    rw [Std.ExtTreeMap.getElem?_eq_none hlocal, Std.ExtTreeMap.getElem?_eq_none hbefore]

/-- From one assignment of types to another: names keep their types, counters are integers, only
the names that some statements bind are new, and what was checked on the way holds under all
assignments that agree. -/
structure Advance (counters : List String) (parts : List Stmt)
    (wellScoped : List String → List String → Bool) (checked : Bindings Ty → Prop)
    (before after : Bindings Ty) : Prop where
  counts : CountersInt counters after
  grows : Grows before after
  names : ∀ name ∈ after, name ∈ before ∨ ∃ part ∈ parts, part.Binds name
  settled : ∀ locals names bound, Grows after locals → (∀ name ∈ locals, name ∈ names) →
    (∀ name ∈ bound, name ∈ before) → wellScoped names bound = true → checked locals

namespace Advance

variable {counters : List String} {parts parts' : List Stmt}
  {wellScoped wellScoped' : List String → List String → Bool}
  {checked checked' : Bindings Ty → Prop}
  {before middle after globals : Bindings Ty} {result type : Ty} {serial pushed : Nat}
  {expr : Expr} {name : String}

/-- The same way, described with more statements, more tests and fewer results. -/
theorem weaken (h : Advance counters parts wellScoped checked before after)
    (hparts : ∀ part ∈ parts, part ∈ parts')
    (hscoped : ∀ names bound, wellScoped' names bound = true → wellScoped names bound = true)
    (hchecked : ∀ locals, checked locals → checked' locals) :
    Advance counters parts' wellScoped' checked' before after where
  counts := h.counts
  grows := h.grows
  names name hname := (h.names name hname).imp id fun ⟨part, hpart, hbinds⟩ =>
    ⟨part, hparts part hpart, hbinds⟩
  settled locals names bound hgrows hnames hbound hws :=
    hchecked locals (h.settled locals names bound hgrows hnames hbound (hscoped names bound hws))

/-- One way after the other; the second may use names that the first has bound. -/
theorem append (extra : List String)
    (hfirst : Advance counters parts wellScoped checked before middle)
    (hsecond : Advance counters parts' wellScoped' checked' middle after)
    (hextra : ∀ name ∈ extra, name ∈ middle) :
    Advance counters (parts ++ parts')
      (fun names bound => wellScoped names bound && wellScoped' names (extra ++ bound))
      (fun locals => checked locals ∧ checked' locals) before after where
  counts := hsecond.counts
  grows := hfirst.grows.trans hsecond.grows
  names name hname := by
    rcases hsecond.names name hname with hmiddle | ⟨part, hpart, hbinds⟩
    · rcases hfirst.names name hmiddle with hbefore | ⟨part, hpart, hbinds⟩
      · exact .inl hbefore
      · exact .inr ⟨part, List.mem_append_left _ hpart, hbinds⟩
    · exact .inr ⟨part, List.mem_append_right _ hpart, hbinds⟩
  settled locals names bound hgrows hnames hbound hws := by
    rw [Bool.and_eq_true] at hws
    -- What the first way has checked is judged by the types at the end of the second.
    refine ⟨hfirst.settled locals names bound (hsecond.grows.trans hgrows) hnames hbound hws.1,
      hsecond.settled locals names (extra ++ bound) hgrows hnames ?_ hws.2⟩
    intro name hname
    rcases List.mem_append.mp hname with hnew | hold
    · exact hextra name hnew
    · exact hfirst.grows.mem (hbound name hold)

theorem nothing (hcounts : CountersInt counters before) (h : ∀ locals, checked locals) :
    Advance counters [] (fun _ _ => true) checked before before where
  counts := hcounts
  grows := .refl before
  names _ hname := .inl hname
  settled locals _ _ _ _ _ _ := h locals

/-- An expression is checked. -/
theorem check (hcounts : CountersInt counters before)
    (hclean : (infer (bodyScope globals before result serial pushed) expr).problems = [])
    (htype : (infer (bodyScope globals before result serial pushed) expr).type = type) :
    Advance counters [] (fun names bound => expr.wellScoped names bound)
      (fun locals => expr.HasType globals locals type) before before where
  counts := hcounts
  grows := .refl before
  names _ hname := .inl hname
  settled locals names bound hgrows hnames hbound hscoped := by
    rw [infer_bodyScope_eq hgrows hnames hbound hscoped] at hclean htype
    exact ⟨hclean, htype⟩

/-- A name is bound that was not bound to another type before. -/
theorem insert {stmt : Stmt} (type : Ty) (hcounts : CountersInt counters before)
    (hbinds : stmt.Binds name)
    (hsame : ∀ other, before[name]? = some other → other = type)
    (hcounter : name ∈ counters → type = .int) :
    Advance counters [stmt] (fun _ _ => true) (fun locals => locals[name]? = some type) before
      (before.insert name type) where
  counts counter hcounter' other hother := by
    rw [Scope.getElem?_insert] at hother
    by_cases heq : name = counter
    · rw [if_pos heq] at hother
      rw [← Option.some.inj hother]
      exact hcounter (heq ▸ hcounter')
    · rw [if_neg heq] at hother
      exact hcounts counter hcounter' other hother
  grows other found hfound := by
    rw [Scope.getElem?_insert]
    by_cases heq : name = other
    · rw [if_pos heq, hsame found (heq ▸ hfound)]
    · rw [if_neg heq]
      exact hfound
  names other hother := by
    by_cases heq : name = other
    · exact .inr ⟨stmt, List.mem_singleton.mpr rfl, heq ▸ hbinds⟩
    · exact .inl ((Scope.mem_insert_iff.mp hother).resolve_left heq)
  settled locals _ _ hgrows _ _ _ := by
    refine hgrows name type ?_
    rw [Scope.getElem?_insert, if_pos rfl]

end Advance

/-- All statements of a list are in order. -/
def TypedParts (globals : Bindings Ty) (result : Ty) (parts : List Stmt) (locals : Bindings Ty) :
    Prop :=
  ∀ part ∈ parts, part.TypedIn globals locals result

/-- A function is typed by an assignment of types to all names that it binds. -/
structure FnDecl.TypedBy (globals : Bindings Ty) (decl : FnDecl Stmt)
    (locals : Bindings Ty) : Prop where
  parameters : ∀ parameter ∈ decl.parameters, locals[parameter.name]? = some parameter.type
  names : ∀ name ∈ locals, name ∈ decl.names
  body : TypedParts globals decl.returnType decl.parts locals

namespace Check

section Walk

variable {globals : Bindings Ty} {result : Ty} {serial pushed : Nat} {counters : List String}

mutual

/-- A check of a statement that passes leads on to an assignment of types under which the statement
is in order. -/
theorem advance_stmt {before after : Checker} {locals : Bindings Ty} : (stmt : Stmt) →
    Passes (Check.stmt stmt) before after →
    before.scope = bodyScope globals locals result serial pushed → CountersInt counters locals →
    (∀ part ∈ stmt.parts, part.Apart counters) →
    ∃ later, after.scope = bodyScope globals later result serial pushed ∧
      Advance counters stmt.parts (fun names bound => stmt.wellScoped names bound)
        (TypedParts globals result stmt.parts) locals later ∧
      ∀ name, stmt.bound? = some name → name ∈ later
  | .function decl, _, _, _, hparts => by
      have hflat := (hparts (.function decl) (by simp [Stmt.parts])).flat
      exact absurd hflat (by simp [Stmt.decl?])
  | .ret value span, h, hscope, hcounts, _ => by
      obtain ⟨hclean, hcontext, hafter⟩ := h.ret
      rw [hscope] at hclean hcontext hafter
      rw [bodyScope_context] at hcontext
      refine ⟨locals, hafter, ?_, by simp [Stmt.bound?]⟩
      refine (Advance.check hcounts hclean (Option.some.inj hcontext).symm).weaken (by simp)
        (fun _ _ hws => hws) fun later hlater => ?_
      simpa [TypedParts, Stmt.parts, Stmt.TypedIn] using hlater
  | .bind name value span, h, hscope, hcounts, hparts => by
      obtain ⟨hfresh, hclean, hafter⟩ := h.bindName
      rw [hscope] at hfresh hclean hafter
      rw [bodyScope_insert] at hafter
      rw [bodyScope_getLocal?] at hfresh
      have hapart := hparts (.bind name value span) (by simp [Stmt.parts])
      refine ⟨_, hafter, ?_, ?_⟩
      · have hinsert : Advance counters [.bind name value span] _ _ locals _ :=
          Advance.insert (infer (bodyScope globals locals result serial pushed) value).type hcounts
            (.inl rfl) (fun other hother => by rw [hfresh] at hother; cases hother)
            (fun hcounter => absurd hcounter (hapart.bound name rfl))
        refine ((Advance.check hcounts hclean rfl).append [] hinsert (by simp)).weaken
          (by simp [Stmt.parts]) (fun _ _ hws => ?_) fun later hlater => ?_
        · simpa [Stmt.wellScoped] using hws
        · simpa [TypedParts, Stmt.parts, Stmt.TypedIn] using ⟨_, hlater⟩
      · intro other hother
        obtain rfl : name = other := Option.some.inj hother
        exact Std.ExtTreeMap.mem_insert_self
  | .expr value, h, hscope, hcounts, _ => by
      obtain ⟨hclean, hafter⟩ := h.expr
      rw [hscope] at hclean hafter
      refine ⟨locals, hafter, ?_, by simp [Stmt.bound?]⟩
      refine (Advance.check hcounts hclean rfl).weaken (by simp) (fun _ _ hws => hws)
        fun later hlater => ?_
      simpa [TypedParts, Stmt.parts, Stmt.TypedIn] using ⟨_, hlater⟩
  | .branch ⟨condition, body, span⟩ others otherwise, h, hscope, hcounts, hparts => by
      obtain ⟨second, hfirst, hrest⟩ := h.bind ((tidy_arms others).bind (tidy_lastBlock otherwise))
      obtain ⟨third, hothers, hlast⟩ := hrest.bind (tidy_lastBlock otherwise)
      simp only [Stmt.parts, List.mem_cons, List.mem_append, forall_eq_or_imp] at hparts
      obtain ⟨middle, hmiddle, hadvance⟩ := advance_arm ⟨condition, body, span⟩ hfirst hscope
        hcounts fun part hpart => hparts.2 part (.inl (.inl hpart))
      obtain ⟨later, hlater, hadvance'⟩ := advance_arms others hothers hmiddle hadvance.counts
        fun part hpart => hparts.2 part (.inl (.inr hpart))
      obtain ⟨final, hfinal, hadvance''⟩ := advance_lastBlock otherwise hlast hlater
        hadvance'.counts fun part hpart => hparts.2 part (.inr hpart)
      refine ⟨final, hfinal, ?_, by simp [Stmt.bound?]⟩
      have hall := (hadvance.append [] hadvance' (by simp)).append [] hadvance'' (by simp)
      refine hall.weaken ?_ ?_ ?_
      · intro part hpart
        exact List.mem_cons_of_mem _ hpart
      · intro names bound hws
        simpa [Stmt.wellScoped] using hws
      · rintro types ⟨⟨⟨hcondition, hbody⟩, hconditions, hbodies⟩, hend⟩ part hpart
        simp only [Stmt.parts, List.mem_cons, List.mem_append] at hpart
        rcases hpart with rfl | (hpart | hpart) | hpart
        · exact ⟨hcondition, hconditions⟩
        · exact hbody part hpart
        · exact hbodies part hpart
        · exact hend part hpart
  | .loop condition body span, h, hscope, hcounts, hparts => by
      obtain ⟨middle, hcondition, hbody⟩ := h.bind (tidy_block body)
      obtain ⟨hclean, htype, hmiddle⟩ := hcondition.expect
      rw [hscope] at hclean htype hmiddle
      obtain ⟨later, hlater, hadvance⟩ := advance_block body hbody hmiddle hcounts
        fun part hpart => hparts part (List.mem_cons_of_mem _ hpart)
      refine ⟨later, hlater, ?_, by simp [Stmt.bound?]⟩
      refine ((Advance.check hcounts hclean htype).append [] hadvance (by simp)).weaken ?_ ?_ ?_
      · intro part hpart
        exact List.mem_cons_of_mem _ hpart
      · intro names bound hws
        simpa [Stmt.wellScoped] using hws
      · rintro types ⟨hbool, hparts⟩ part hpart
        rcases List.mem_cons.mp hpart with rfl | hpart
        · exact hbool
        · exact hparts part hpart
  | .range counter lower upper body span, h, hscope, hcounts, hparts => by
      obtain ⟨middle, hhead, hbody⟩ := h.bind (tidy_block body)
      obtain ⟨hlower, hupper, hmiddle⟩ := hhead.rangeHead
      rw [hscope] at hlower hupper hmiddle
      rw [bodyScope_insert] at hmiddle
      have hself := hparts (.range counter lower upper body span) (by simp [Stmt.parts])
      -- The counter may have been bound by a loop before, but then it is an integer already.
      have hinsert : Advance counters [.range counter lower upper body span] _ _ locals _ :=
        Advance.insert .int hcounts (.inr rfl) (hcounts counter (hself.counter counter rfl))
          (fun _ => rfl)
      obtain ⟨later, hlater, hadvance⟩ := advance_block body hbody hmiddle hinsert.counts
        fun part hpart => hparts part (List.mem_cons_of_mem _ hpart)
      refine ⟨later, hlater, ?_, by simp [Stmt.bound?]⟩
      have hbounds := (Advance.check hcounts hlower.1 hlower.2).append []
        (Advance.check hcounts hupper.1 hupper.2) (by simp)
      have hcounted : ∀ name ∈ [counter], name ∈ locals.insert counter .int := by
        intro name hname
        rw [List.mem_singleton.mp hname]
        exact Std.ExtTreeMap.mem_insert_self
      -- The body may mention the counter, the bounds may not.
      have hall := (hbounds.append [] hinsert (by simp)).append [counter] hadvance hcounted
      refine hall.weaken ?_ ?_ ?_
      · intro part hpart
        simpa [Stmt.parts] using hpart
      · intro names bound hws
        simpa [Stmt.wellScoped] using hws
      · rintro types ⟨⟨⟨hfirst, hlast⟩, hcounter⟩, hparts⟩ part hpart
        rcases List.mem_cons.mp hpart with rfl | hpart
        · exact ⟨hfirst, hlast, hcounter⟩
        · exact hparts part hpart
  | .block inner, h, hscope, hcounts, hparts => by
      obtain ⟨later, hlater, hadvance⟩ := advance_block inner h hscope hcounts
        fun part hpart => hparts part (List.mem_cons_of_mem _ hpart)
      refine ⟨later, hlater, ?_, by simp [Stmt.bound?]⟩
      refine hadvance.weaken (fun part hpart => List.mem_cons_of_mem _ hpart) (fun _ _ hws => hws)
        fun types hparts part hpart => ?_
      rcases List.mem_cons.mp hpart with rfl | hpart
      · exact trivial
      · exact hparts part hpart

theorem advance_arm {before after : Checker} {locals : Bindings Ty} : (arm : Arm Stmt) →
    Passes (Check.arm arm) before after →
    before.scope = bodyScope globals locals result serial pushed → CountersInt counters locals →
    (∀ part ∈ Stmt.partsOfBlock arm.body, part.Apart counters) →
    ∃ later, after.scope = bodyScope globals later result serial pushed ∧
      Advance counters (Stmt.partsOfBlock arm.body)
        (fun names bound => arm.condition.wellScoped names bound &&
          Stmt.wellScopedBlock names bound arm.body)
        (fun types => arm.condition.HasType globals types .bool ∧
          TypedParts globals result (Stmt.partsOfBlock arm.body) types) locals later
  | ⟨condition, body, span⟩, h, hscope, hcounts, hparts => by
      obtain ⟨middle, hcondition, hbody⟩ := h.bind (tidy_block body)
      obtain ⟨hclean, htype, hmiddle⟩ := hcondition.expect
      rw [hscope] at hclean htype hmiddle
      obtain ⟨later, hlater, hadvance⟩ := advance_block body hbody hmiddle hcounts hparts
      exact ⟨later, hlater, (Advance.check hcounts hclean htype).append [] hadvance (by simp)⟩

theorem advance_arms {before after : Checker} {locals : Bindings Ty} : (arms : List (Arm Stmt)) →
    Passes (Check.arms arms) before after →
    before.scope = bodyScope globals locals result serial pushed → CountersInt counters locals →
    (∀ part ∈ Stmt.partsOfArms arms, part.Apart counters) →
    ∃ later, after.scope = bodyScope globals later result serial pushed ∧
      Advance counters (Stmt.partsOfArms arms)
        (fun names bound => Stmt.wellScopedArms names bound arms)
        (fun types => (∀ arm ∈ arms, arm.condition.HasType globals types .bool) ∧
          TypedParts globals result (Stmt.partsOfArms arms) types) locals later
  | [], h, hscope, hcounts, _ => by
      obtain ⟨rfl, -⟩ := Passes.change h
      exact ⟨locals, hscope, Advance.nothing hcounts (by simp [TypedParts, Stmt.partsOfArms])⟩
  | ⟨condition, body, span⟩ :: others, h, hscope, hcounts, hparts => by
      obtain ⟨second, hfirst, hothers⟩ := h.bind (tidy_arms others)
      simp only [Stmt.partsOfArms, List.mem_append] at hparts
      obtain ⟨middle, hmiddle, hadvance⟩ := advance_arm ⟨condition, body, span⟩ hfirst hscope
        hcounts fun part hpart => hparts part (.inl hpart)
      obtain ⟨later, hlater, hadvance'⟩ := advance_arms others hothers hmiddle hadvance.counts
        fun part hpart => hparts part (.inr hpart)
      refine ⟨later, hlater, ?_⟩
      refine (hadvance.append [] hadvance' (by simp)).weaken (fun part hpart => hpart) ?_ ?_
      · intro names bound hws
        simpa [Stmt.wellScopedArms] using hws
      · rintro types ⟨⟨hcondition, hbody⟩, hconditions, hbodies⟩
        refine ⟨by simpa using ⟨hcondition, hconditions⟩, fun part hpart => ?_⟩
        rcases List.mem_append.mp hpart with hpart | hpart
        · exact hbody part hpart
        · exact hbodies part hpart

theorem advance_lastBlock {before after : Checker} {locals : Bindings Ty} :
    (last : Option (Block Stmt)) → Passes (Check.lastBlock last) before after →
    before.scope = bodyScope globals locals result serial pushed → CountersInt counters locals →
    (∀ part ∈ Stmt.partsOfLast last, part.Apart counters) →
    ∃ later, after.scope = bodyScope globals later result serial pushed ∧
      Advance counters (Stmt.partsOfLast last)
        (fun names bound => Stmt.wellScopedLast names bound last)
        (TypedParts globals result (Stmt.partsOfLast last)) locals later
  | some inner, h, hscope, hcounts, hparts => advance_block inner h hscope hcounts hparts
  | none, h, hscope, hcounts, _ => by
      obtain ⟨rfl, -⟩ := Passes.change h
      exact ⟨locals, hscope, Advance.nothing hcounts (by simp [TypedParts, Stmt.partsOfLast])⟩

theorem advance_block {before after : Checker} {locals : Bindings Ty} : (block : Block Stmt) →
    Passes (Check.block block) before after →
    before.scope = bodyScope globals locals result serial pushed → CountersInt counters locals →
    (∀ part ∈ Stmt.partsOfBlock block, part.Apart counters) →
    ∃ later, after.scope = bodyScope globals later result serial pushed ∧
      Advance counters (Stmt.partsOfBlock block)
        (fun names bound => Stmt.wellScopedBlock names bound block)
        (TypedParts globals result (Stmt.partsOfBlock block)) locals later
  | ⟨body, _⟩, h, hscope, hcounts, hparts => advance_stmts body h hscope hcounts hparts

theorem advance_stmts {before after : Checker} {locals : Bindings Ty} : (stmts : List Stmt) →
    Passes (Check.stmts stmts) before after →
    before.scope = bodyScope globals locals result serial pushed → CountersInt counters locals →
    (∀ part ∈ Stmt.partsOfAll stmts, part.Apart counters) →
    ∃ later, after.scope = bodyScope globals later result serial pushed ∧
      Advance counters (Stmt.partsOfAll stmts)
        (fun names bound => Stmt.wellScopedAll names bound stmts)
        (TypedParts globals result (Stmt.partsOfAll stmts)) locals later
  | [], h, hscope, hcounts, _ => by
      obtain ⟨rfl, -⟩ := Passes.change h
      exact ⟨locals, hscope, Advance.nothing hcounts (by simp [TypedParts, Stmt.partsOfAll])⟩
  | stmt :: stmts, h, hscope, hcounts, hparts => by
      obtain ⟨second, hfirst, hothers⟩ := h.bind (tidy_stmts stmts)
      simp only [Stmt.partsOfAll, List.mem_append] at hparts
      obtain ⟨middle, hmiddle, hadvance, hbinds⟩ := advance_stmt stmt hfirst hscope hcounts
        fun part hpart => hparts part (.inl hpart)
      obtain ⟨later, hlater, hadvance'⟩ := advance_stmts stmts hothers hmiddle hadvance.counts
        fun part hpart => hparts part (.inr hpart)
      refine ⟨later, hlater, ?_⟩
      have hbound : ∀ name ∈ stmt.bound?.toList, name ∈ middle := by
        intro name hname
        exact hbinds name (Option.mem_toList.mp hname)
      refine (hadvance.append stmt.bound?.toList hadvance' hbound).weaken (fun part hpart => hpart)
        (fun _ _ hws => hws) ?_
      rintro types ⟨hstmt, hstmts⟩ part hpart
      rcases List.mem_append.mp hpart with hpart | hpart
      · exact hstmt part hpart
      · exact hstmts part hpart

end

end Walk

/-! ### Whole functions -/

/-- Parameters that are bound without a complaint all get their types. -/
theorem bindParameters_passes {globals locals : Bindings Ty} {result : Ty} {serial pushed : Nat}
    {decl : FnDecl Stmt} {before after : Checker}
    (h : Passes (change (·.bindParameters decl)) before after)
    (hscope : before.scope = bodyScope globals locals result serial pushed) :
    ∃ later, after.scope = bodyScope globals later result serial pushed ∧
      Grows locals later ∧
      (∀ parameter ∈ decl.parameters, later[parameter.name]? = some parameter.type) ∧
      ∀ name ∈ later, name ∈ locals ∨ name ∈ decl.parameterNames := by
  obtain ⟨rfl, hnil⟩ := h.change
  unfold Checker.bindParameters at hnil ⊢
  unfold FnDecl.parameterNames
  -- By induction on the parameters that are left, with those before them bound.
  clear h
  generalize decl.parameters = parameters at hnil ⊢
  induction parameters generalizing before locals with
  | nil => exact ⟨locals, hscope, .refl locals, by simp, fun name hname => .inl hname⟩
  | cons parameter parameters ih =>
      rw [List.foldl_cons] at hnil ⊢
      have hmoves (item : Parameter) : Checker.Moves fun checker =>
          (checker.complainIfBound item.name (.alreadyInScope item.name) decl.span).insert
            item.name item.type :=
        (Checker.moves_insert _ _).comp (Checker.moves_complainIfBound _ _ _)
      have hinserted := (Checker.moves_foldl hmoves parameters).recorded hnil
      have hrecorded : (before.complainIfBound parameter.name (.alreadyInScope parameter.name)
          decl.span).recorded = [] := hinserted
      -- No complaint was made about this parameter, so it is new.
      obtain ⟨hfresh, hsame⟩ := Passes.complainIfBound hrecorded
      rw [hsame] at hnil ⊢
      rw [hscope, bodyScope_getLocal?] at hfresh
      have hinsert : (before.insert parameter.name parameter.type).scope =
          bodyScope globals (locals.insert parameter.name parameter.type) result serial pushed := by
        rw [Checker.insert, hscope, bodyScope_insert]
      obtain ⟨later, hlater, hgrows, htypes, hnames⟩ := ih hinsert hnil
      have hself : later[parameter.name]? = some parameter.type :=
        hgrows _ _ (by rw [Scope.getElem?_insert, if_pos rfl])
      refine ⟨later, hlater, fun name type hold => hgrows name type ?_, ?_, fun name hname => ?_⟩
      · rw [Scope.getElem?_insert, if_neg]
        · exact hold
        · rintro rfl
          rw [hfresh] at hold
          cases hold
      · simpa using ⟨hself, htypes⟩
      · rcases hnames name hname with hold | hnew
        · rcases Scope.mem_insert_iff.mp hold with rfl | hold
          · exact .inr (by simp)
          · exact .inl hold
        · exact .inr (List.mem_cons_of_mem _ hnew)

theorem apart_of_bindsFirst {decl : FnDecl Stmt} (h : decl.BindsFirst) {part : Stmt}
    (hpart : part ∈ decl.parts) : part.Apart decl.counters where
  flat := h.flat part hpart
  bound name hname hcounter :=
    (h.apart name hcounter).2 (List.mem_filterMap.mpr ⟨part, hpart, hname⟩)
  counter _ hname := List.mem_filterMap.mpr ⟨part, hpart, hname⟩

/-- A function at the top that passes is typed by some assignment, and its result, if it has one, is
given on every path. -/
theorem typedBy_of_passes_function {globals : Bindings Ty} {pushed : Nat} {before after : Checker} :
    (decl : FnDecl Stmt) → decl.BindsFirst → Passes (Check.function decl) before after →
    before.scope = ⟨globals, #[], pushed⟩ →
    (∃ locals, decl.TypedBy globals locals) ∧ decl.pathProblems = [] ∧
      ∃ count, after.scope = ⟨globals, #[], count⟩
  | ⟨id, name, parameters, returnType, body, span⟩, hfirst, h, hscope => by
      obtain ⟨middle, hframe, hrecord⟩ := h.bind (Tidy.change (Checker.moves_record _))
      obtain ⟨hpath, hafter⟩ := hrecord.record
      obtain ⟨⟨inner, hinner⟩, count, hmiddle⟩ := hframe.inFrame
        ((Tidy.change (Checker.moves_bindParameters _)).bind (tidy_block body))
      rw [hscope, Scope.locals_global, Scope.withLocals_global] at hmiddle
      refine ⟨?_, hpath, count, hafter.trans hmiddle⟩
      obtain ⟨bound, hparameters, hbody⟩ := hinner.bind (tidy_block body)
      have hpushed : ({ before with
          scope := before.scope.push before.scope.current (some returnType) } : Checker).scope =
          bodyScope globals ∅ returnType (pushed + 1) (pushed + 1) := by
        rw [hscope]
        rfl
      obtain ⟨locals, hlocals, -, htypes, hnames⟩ := bindParameters_passes hparameters hpushed
      have hknown : ∀ other ∈ locals, other ∈ parameters.map (·.name) := fun other hother =>
        (hnames other hother).resolve_left (by simp)
      have hcounts : CountersInt (FnDecl.counters ⟨id, name, parameters, returnType, body, span⟩)
          locals := by
        intro counter hcounter type htype
        have hmem : counter ∈ locals := Scope.mem_of_getElem? htype
        exact absurd (hknown counter hmem) (hfirst.apart counter hcounter).1
      -- The types at the end of the body are those by which the whole body is typed.
      obtain ⟨later, -, hadvance⟩ := advance_block body hbody hlocals hcounts
        fun part hpart => apart_of_bindsFirst hfirst hpart
      have hlater : ∀ other ∈ later,
          other ∈ FnDecl.names ⟨id, name, parameters, returnType, body, span⟩ := by
        intro other hother
        rw [FnDecl.names, List.mem_append, List.mem_append]
        rcases hadvance.names other hother with hold | ⟨part, hpart, hbound | hcounter⟩
        · exact .inl (.inl (hknown other hold))
        · exact .inl (.inr (List.mem_filterMap.mpr ⟨part, hpart, hbound⟩))
        · exact .inr (List.mem_filterMap.mpr ⟨part, hpart, hcounter⟩)
      have hbound : ∀ other ∈ parameters.map (·.name), other ∈ locals := by
        intro other hother
        obtain ⟨parameter, hparameter, rfl⟩ := List.mem_map.mp hother
        exact Scope.mem_of_getElem? (htypes parameter hparameter)
      refine ⟨later, fun parameter hparameter => ?_, hlater, ?_⟩
      · exact hadvance.grows _ _ (htypes parameter hparameter)
      · exact hadvance.settled later _ _ (.refl later) hlater hbound hfirst.wellScoped

/-- All functions of a program that passes are typed. -/
theorem typedBy_of_passes_stmts {globals : Bindings Ty} {pushed : Nat} {before after : Checker}
    {program : List Stmt} (hfirst : BindsFirst program)
    (h : Passes (Check.stmts program) before after)
    (hscope : before.scope = ⟨globals, #[], pushed⟩) :
    ∀ decl, .function decl ∈ program →
      (∃ locals, decl.TypedBy globals locals) ∧ decl.pathProblems = [] := by
  induction program generalizing before pushed with
  | nil => simp
  | cons stmt program ih =>
      obtain ⟨middle, hstmt, hothers⟩ := h.bind (tidy_stmts program)
      obtain ⟨decl, rfl, hbinds⟩ := (hfirst stmt List.mem_cons_self).decl
      obtain ⟨declared, hdeclare, hfunction⟩ := hstmt.bind (tidy_function decl)
      have hdeclared : declared.scope = ⟨globals, #[], pushed⟩ := by
        obtain ⟨rfl, -⟩ := hdeclare.change
        rw [if_pos (by rw [hscope]; rfl)]
        exact hscope
      obtain ⟨htyped, hpath, count, hmiddle⟩ :=
        typedBy_of_passes_function decl hbinds hfunction hdeclared
      have hrest := ih (fun other hother => hfirst other (List.mem_cons_of_mem _ hother)) hothers
        hmiddle
      intro other hother
      rcases List.mem_cons.mp hother with heq | hother
      · obtain rfl : other = decl := Stmt.function.inj heq
        exact ⟨htyped, hpath⟩
      · exact hrest other hother

end Check

end Quill
