import Quill.Inference
import Quill.Proofs.Parts

/-!
# Expressions without problems

What is known of an expression in which no problem was found: its parts are without problems, and
their types fit together.  There is one lemma for each kind of expression.
-/

namespace Quill

theorem typeMismatch_eq_nil {expected received : Ty} {span : Span} :
    typeMismatch expected received span = [] ↔ received = expected := by
  unfold typeMismatch
  split
  · next heq => simp [heq]
  · next hne => simp [hne]

theorem Ty.eq_int_of_isNumeric {type : Ty} (h : type.isNumeric = true) (hfloat : type ≠ .float) :
    type = .int := by
  cases type with
  | int => rfl
  | float => exact absurd rfl hfloat
  | _ => exact Bool.noConfusion h

/-- Whether the operator computes a number from numbers, besides joining texts and arrays. -/
def Operator.isArithmetic (operator : Operator) : Bool :=
  !operator.isEquality && !operator.isOrdering

/-- The operator takes operands of two types and gives a result of a third. -/
inductive Operator.Takes : Operator → Ty → Ty → Ty → Prop
  | equality {operator : Operator} {left right : Ty} (h : operator.isEquality = true) :
    Takes operator left right .bool
  | text {left right : Ty} (h : left = .string ∨ right = .string) : Takes .add left right .string
  | append {element : Ty} (h : element ≠ .string) :
    Takes .add (.array element) element (.array element)
  | ordering {operator : Operator} {left right : Ty} (h : operator.isOrdering = true)
    (hleft : left.isNumeric = true) (hright : right.isNumeric = true) :
    Takes operator left right .bool
  | integers {operator : Operator} (h : operator.isArithmetic = true) :
    Takes operator .int .int .int
  | floats {operator : Operator} {left right : Ty} (h : operator.isArithmetic = true)
    (hleft : left.isNumeric = true) (hright : right.isNumeric = true)
    (hfloat : left = .float ∨ right = .float) : Takes operator left right .float

/-- Between numbers of which none is a float, an arithmetic operator gives an integer. -/
theorem Operator.takes_integers {operator : Operator} {left right : Ty}
    (h : operator.isArithmetic = true) (hleft : left.isNumeric = true)
    (hright : right.isNumeric = true) (hfloat : ¬(left = .float ∨ right = .float)) :
    operator.Takes left right .int := by
  rw [not_or] at hfloat
  rw [Ty.eq_int_of_isNumeric hleft hfloat.1, Ty.eq_int_of_isNumeric hright hfloat.2]
  exact .integers h

namespace Typed

variable {typed left right base index target value : Typed} {elements arguments : List Typed}
  {span : Span}

theorem expecting_eq_nil {expected : Ty} :
    typed.expecting expected span = [] ↔ typed.problems = [] ∧ typed.type = expected := by
  unfold expecting
  rw [List.append_eq_nil_iff, typeMismatch_eq_nil]

/-- The elements of an array without problems have one type. -/
theorem array_clean (h : (array elements span).problems = []) :
    ∃ element, (array elements span).type = .array element ∧
      ∀ item ∈ elements, item.problems = [] ∧ item.type = element := by
  cases elements with
  | nil => exact ⟨.void, rfl, by simp⟩
  | cons first others =>
      refine ⟨first.type, rfl, ?_⟩
      have hparts : first.problems = [] ∧
          (others.flatMap fun other => other.expecting first.type other.span) = [] :=
        List.append_eq_nil_iff.mp h
      intro item hmem
      rcases List.mem_cons.mp hmem with rfl | hother
      · exact ⟨hparts.1, rfl⟩
      · exact expecting_eq_nil.mp (List.flatMap_eq_nil_iff.mp hparts.2 item hother)

theorem argumentProblems_eq_nil {parameters : List Ty}
    (h : argumentProblems parameters arguments span = []) :
    arguments.map (·.type) = parameters := by
  unfold argumentProblems at h
  split at h
  · exact absurd h (List.cons_ne_nil _ _)
  -- The lists are compared place by place, as the pairs that were checked are.
  · next hlength =>
    have hlength : parameters.length = arguments.length := by simpa using hlength
    have hpairs := List.flatMap_eq_nil_iff.mp h
    refine List.ext_getElem (by simp [hlength]) fun place hleft hright => ?_
    have hplace : place < arguments.length := by simpa using hleft
    have hmem : (parameters[place], arguments[place]) ∈ parameters.zip arguments := by
      have hzip : place < (parameters.zip arguments).length := by
        rw [List.length_zip]
        omega
      exact List.mem_iff_getElem.mpr ⟨place, hzip, by simp⟩
    rw [List.getElem_map]
    exact typeMismatch_eq_nil.mp (hpairs _ hmem)

/-- A call without problems is one of a function whose parameters have the types of the arguments,
or of one that takes any arguments. -/
theorem call_clean {found : Option Ty} {callee : String} {calleeSpan : Span}
    (h : (call found callee calleeSpan arguments span).problems = []) :
    (∀ argument ∈ arguments, argument.problems = []) ∧
      (found = some (.function (arguments.map (·.type))
          (call found callee calleeSpan arguments span).type) ∨
        found = some (.variadic (call found callee calleeSpan arguments span).type)) := by
  unfold call at h ⊢
  split at h
  · next parameters result =>
    obtain ⟨hinner, hfit⟩ := List.append_eq_nil_iff.mp h
    refine ⟨List.flatMap_eq_nil_iff.mp hinner, .inl ?_⟩
    rw [argumentProblems_eq_nil hfit]
  · next result => exact ⟨List.flatMap_eq_nil_iff.mp h, .inr rfl⟩
  · exact absurd (List.append_eq_nil_iff.mp h).2 (List.cons_ne_nil _ _)
  · exact absurd (List.append_eq_nil_iff.mp h).2 (List.cons_ne_nil _ _)

/-- A subscript without problems has an integer index, into an array or a string. -/
theorem subscript_clean (h : (subscript base index span).problems = []) :
    base.problems = [] ∧ index.problems = [] ∧ index.type = .int ∧
      (base.type = .array (subscript base index span).type ∨
        base.type = .string ∧ (subscript base index span).type = .string) := by
  have hinner : base.problems ++ index.expecting .int index.span = [] →
      base.problems = [] ∧ index.problems = [] ∧ index.type = .int := by
    intro hparts
    obtain ⟨hbase, hindex⟩ := List.append_eq_nil_iff.mp hparts
    exact ⟨hbase, expecting_eq_nil.mp hindex⟩
  unfold subscript at h ⊢
  split at h
  · next element htype =>
    obtain ⟨hbase, hindex, hint⟩ := hinner h
    exact ⟨hbase, hindex, hint, .inl (by simp [htype])⟩
  · next htype =>
    obtain ⟨hbase, hindex, hint⟩ := hinner h
    exact ⟨hbase, hindex, hint, .inr (by simp [htype])⟩
  · exact absurd (List.append_eq_nil_iff.mp h).2 (List.cons_ne_nil _ _)

theorem numberProblems_eq_nil : typed.numberProblems = [] ↔ typed.type.isNumeric = true := by
  unfold numberProblems
  split
  · next hnumeric => simp [hnumeric]
  · next hother => simp [hother]

/-- An operator without problems stands between operands that it takes. -/
theorem binary_clean {operator : Operator} (h : (binary operator left right span).problems = []) :
    left.problems = [] ∧ right.problems = [] ∧
      operator.Takes left.type right.type (binary operator left right span).type := by
  -- Where numbers are asked for, no problem means that both operands are numbers.
  have hnumbers : left.problems ++ right.problems ++ left.numberProblems ++ right.numberProblems
      = [] → left.problems = [] ∧ right.problems = [] ∧ left.type.isNumeric = true ∧
        right.type.isNumeric = true := by
    simp only [List.append_eq_nil_iff, numberProblems_eq_nil]
    rintro ⟨⟨⟨hleft, hright⟩, hfirst⟩, hsecond⟩
    exact ⟨hleft, hright, hfirst, hsecond⟩
  by_cases hequality : operator.isEquality = true
  · simp only [binary, hequality, if_true] at h ⊢
    obtain ⟨hleft, hright⟩ := List.append_eq_nil_iff.mp h
    exact ⟨hleft, hright, .equality hequality⟩
  rw [Bool.not_eq_true] at hequality
  -- An addition that is not one of numbers joins texts or extends an array.
  by_cases hjoin : operator = .add ∧ ¬(left.type.isNumeric = true ∧ right.type.isNumeric = true)
  · simp only [binary, hequality, Bool.false_eq_true, if_false, if_pos hjoin] at h ⊢
    obtain ⟨rfl, -⟩ := hjoin
    by_cases htext : left.type = .string ∨ right.type = .string
    · simp only [if_pos htext] at h ⊢
      obtain ⟨hleft, hright⟩ := List.append_eq_nil_iff.mp h
      exact ⟨hleft, hright, .text htext⟩
    · by_cases happend : left.type = .array right.type
      · simp only [if_neg htext, if_pos happend] at h ⊢
        obtain ⟨hleft, hright⟩ := List.append_eq_nil_iff.mp h
        rw [happend]
        exact ⟨hleft, hright, .append fun hstring => htext (.inr hstring)⟩
      · simp only [if_neg htext, if_neg happend] at h
        exact absurd (List.append_eq_nil_iff.mp h).2 (List.cons_ne_nil _ _)
  · simp only [binary, hequality, Bool.false_eq_true, if_false, if_neg hjoin] at h ⊢
    by_cases hordering : operator.isOrdering = true
    · simp only [if_pos hordering] at h ⊢
      obtain ⟨hleft, hright, hfirst, hsecond⟩ := hnumbers h
      exact ⟨hleft, hright, .ordering hordering hfirst hsecond⟩
    · have harithmetic : operator.isArithmetic = true := by
        simp [Operator.isArithmetic, hequality, hordering]
      by_cases hfloat : (left.type.isNumeric = true ∧ right.type.isNumeric = true) ∧
          (left.type = .float ∨ right.type = .float)
      · simp only [if_neg hordering, if_pos hfloat] at h ⊢
        obtain ⟨hleft, hright, hfirst, hsecond⟩ := hnumbers h
        exact ⟨hleft, hright, .floats harithmetic hfirst hsecond hfloat.2⟩
      · simp only [if_neg hordering, if_neg hfloat] at h ⊢
        obtain ⟨hleft, hright, hfirst, hsecond⟩ := hnumbers h
        have hnone : ¬(left.type = .float ∨ right.type = .float) :=
          fun hsome => hfloat ⟨⟨hfirst, hsecond⟩, hsome⟩
        exact ⟨hleft, hright, Operator.takes_integers harithmetic hfirst hsecond hnone⟩

theorem assign_clean (h : (assign target value span).problems = []) :
    target.problems = [] ∧ value.problems = [] ∧ value.type = target.type := by
  obtain ⟨hparts, htypes⟩ := List.append_eq_nil_iff.mp h
  obtain ⟨htarget, hvalue⟩ := List.append_eq_nil_iff.mp hparts
  exact ⟨htarget, hvalue, typeMismatch_eq_nil.mp htypes⟩

end Typed

section Infer

variable {scope : Scope Ty}

theorem inferAll_eq_map {exprs : List Expr} : inferAll scope exprs = exprs.map (infer scope) := by
  induction exprs with
  | nil => rfl
  | cons expr exprs ih => rw [inferAll, ih, List.map_cons]

theorem infer_assign_clean {target value : Expr} {span : Span}
    (h : (infer scope (.assign target value span)).problems = []) :
    target.isAssignable = true ∧ (infer scope target).problems = [] ∧
      (infer scope value).problems = [] ∧
      (infer scope value).type = (infer scope target).type := by
  rw [infer] at h
  by_cases htarget : target.isAssignable = true
  · rw [if_pos htarget] at h
    exact ⟨htarget, Typed.assign_clean h⟩
  · rw [if_neg htarget] at h
    exact absurd h (List.cons_ne_nil _ _)

mutual

/-- An expression without problems assigns only to what can be assigned to. -/
theorem assignsProperly_of_clean : (expr : Expr) → (infer scope expr).problems = [] →
    expr.assignsProperly = true
  | .int _ _, _ | .float _ _, _ | .string _ _, _ | .bool _ _, _ | .name _ _, _ => rfl
  | .array elements span, h => by
      rw [infer, inferAll_eq_map] at h
      obtain ⟨_, -, helements⟩ := Typed.array_clean h
      rw [Expr.assignsProperly_array]
      exact assignProperly_of_clean elements fun expr hmem =>
        (helements _ (List.mem_map_of_mem hmem)).1
  | .call callee calleeSpan arguments span, h => by
      rw [infer, inferAll_eq_map] at h
      rw [Expr.assignsProperly_call]
      exact assignProperly_of_clean arguments fun expr hmem =>
        (Typed.call_clean h).1 _ (List.mem_map_of_mem hmem)
  | .subscript base index span, h => by
      rw [infer] at h
      obtain ⟨hbase, hindex, -⟩ := Typed.subscript_clean h
      rw [Expr.assignsProperly_subscript, assignsProperly_of_clean base hbase,
        assignsProperly_of_clean index hindex]
      rfl
  | .binary operator left right span, h => by
      rw [infer] at h
      obtain ⟨hleft, hright, -⟩ := Typed.binary_clean h
      rw [Expr.assignsProperly_binary, assignsProperly_of_clean left hleft,
        assignsProperly_of_clean right hright]
      rfl
  | .assign target value span, h => by
      obtain ⟨hassignable, htarget, hvalue, -⟩ := infer_assign_clean h
      rw [Expr.assignsProperly_assign, hassignable, assignsProperly_of_clean target htarget,
        assignsProperly_of_clean value hvalue]
      rfl

theorem assignProperly_of_clean : (exprs : List Expr) →
    (∀ expr ∈ exprs, (infer scope expr).problems = []) → Expr.assignProperly exprs = true
  | [], _ => rfl
  | expr :: exprs, h => by
      rw [Expr.assignProperly_cons, assignsProperly_of_clean expr (h expr List.mem_cons_self),
        assignProperly_of_clean exprs fun other hmem => h other (List.mem_cons_of_mem _ hmem)]
      rfl

end

end Infer

end Quill
