import Quill.Eval
import Quill.Proofs.Inference
import Quill.Proofs.Locals

/-!
# Exact arithmetic

An expression that is built by arithmetic from integers and from names of integers has an exact
value, the one that mathematics gives it.  Running the expression gives that value, or it stops at
the first node, in the order in which nodes are computed, that divides by zero or whose exact value
is no 64-bit integer.  No result ever wraps around, and nothing in scope changes.
-/

namespace Quill

/-- The integers that a program can hold. -/
def InRange (number : Int) : Prop :=
  Int64.minValue.toInt ≤ number ∧ number ≤ Int64.maxValue.toInt

instance (number : Int) : Decidable (InRange number) :=
  inferInstanceAs (Decidable (_ ∧ _))

/-- The result of an arithmetic operator in mathematics, where a quotient is cut toward zero. -/
def Operator.exact (operator : Operator) (left right : Int) : Int :=
  match operator with
  | add => left + right
  | subtract => left - right
  | multiply => left * right
  | _ => left.tdiv right

namespace Expr

/-- The expression is built by arithmetic from integers and from names of integers. -/
inductive Arithmetic (scope : Scope Value) : Expr → Prop
  | literal (number : Int64) (span : Span) : Arithmetic scope (.int number span)
  | known {ident : String} {number : Int64} (span : Span)
    (bound : scope.get? ident = some (.int number)) : Arithmetic scope (.name ident span)
  | operation {operator : Operator} {left right : Expr} (span : Span)
    (arithmetic : operator.isArithmetic = true) (first : Arithmetic scope left)
    (second : Arithmetic scope right) : Arithmetic scope (.binary operator left right span)

/-- The value of such an expression in mathematics. -/
def exactValue (scope : Scope Value) : Expr → Int
  | int number _ => number.toInt
  | name ident _ =>
    match scope.get? ident with
    | some (.int number) => number.toInt
    | _ => 0
  | binary operator left right _ =>
    operator.exact (left.exactValue scope) (right.exactValue scope)
  | _ => 0

/-- The nodes of such an expression in the order in which they are computed: the operands from left
to right, and the operation after them. -/
def nodes : Expr → List Expr
  | binary operator left right span =>
    left.nodes ++ right.nodes ++ [binary operator left right span]
  | leaf => [leaf]

/-- Whether the node divides by zero. -/
def dividesByZero (scope : Scope Value) : Expr → Bool
  | binary .divide _ right _ => right.exactValue scope == 0
  | _ => false

/-- The node has no value that a program can hold. -/
def Offends (scope : Scope Value) (node : Expr) : Prop :=
  node.dividesByZero scope = true ∨ ¬ InRange (node.exactValue scope)

instance (scope : Scope Value) (node : Expr) : Decidable (node.Offends scope) :=
  inferInstanceAs (Decidable (_ ∨ _))

/-- The fault of a node that has no value. -/
def offence (scope : Scope Value) (node : Expr) : Fault :=
  if node.dividesByZero scope then .divisionByZero else .integerOverflow

/-- The first node that has no value. -/
def firstOffender? (scope : Scope Value) (expr : Expr) : Option Expr :=
  expr.nodes.find? (·.Offends scope)

end Expr

/-! ### The first node without a value -/

namespace Expr

variable {scope : Scope Value}

/-- A node without operands has a value if it is in range. -/
theorem firstOffender?_of_inRange {leaf : Expr} (hleaf : leaf.nodes = [leaf])
    (hdivides : leaf.dividesByZero scope = false) (h : InRange (leaf.exactValue scope)) :
    leaf.firstOffender? scope = none := by
  simp [firstOffender?, hleaf, Offends, hdivides, h]

/-- The operands of an operation come before the operation itself. -/
theorem firstOffender?_binary (operator : Operator) (left right : Expr) (span : Span) :
    (binary operator left right span).firstOffender? scope =
      (left.firstOffender? scope).or ((right.firstOffender? scope).or
        (if (binary operator left right span).Offends scope then
          some (binary operator left right span)
        else
          none)) := by
  rw [firstOffender?, nodes, List.find?_append, List.find?_append, Option.or_assoc]
  simp only [firstOffender?, List.find?_singleton, decide_eq_true_eq]

end Expr

/-! ### One operation -/

/-- Every integer of a program is in range. -/
theorem inRange_toInt (number : Int64) : InRange number.toInt :=
  ⟨number.minValue_le_toInt, number.toInt_le⟩

/-- An integer in range is held exactly. -/
theorem toInt_ofInt {number : Int} (h : InRange number) : (Int64.ofInt number).toInt = number :=
  Int64.toInt_ofInt_of_le h.1 (Int.lt_of_le_of_lt h.2 (by decide))

/-- An exact result is given if it is in range, and no other result is. -/
theorem exactInt_eq (number : Int) :
    exactInt number =
      if InRange number then .ok (.int (Int64.ofInt number)) else .error .integerOverflow := by
  by_cases hin : InRange number
  · rw [if_pos hin, exactInt, exactInt?, if_pos (show _ ∧ _ from hin)]
  · rw [if_neg hin, exactInt, exactInt?, if_neg (show ¬ (_ ∧ _) from hin)]

/-- An arithmetic operator between integers gives its exact result, or the fault that there is
none. -/
theorem Value.apply_int {operator : Operator} (h : operator.isArithmetic = true)
    (left right : Int64) :
    (Value.int left).apply operator (.int right) =
      if operator = .divide ∧ right.toInt = 0 then .error .divisionByZero
      else exactInt (operator.exact left.toInt right.toInt) := by
  have hzero : (right == 0) = true ↔ right.toInt = 0 := by
    rw [beq_iff_eq, ← Int64.toInt_inj]
    rfl
  cases operator with
  | add | subtract | multiply => rfl
  | divide =>
      show intArithmetic .divide left right = _
      simp only [intArithmetic, hzero, true_and]
      rfl
  | _ => exact Bool.noConfusion h

/-- The quotient of two integers in range is in range, but for that of the least one by minus
one. -/
theorem inRange_tdiv {left right : Int} (hleft : InRange left) (hzero : right ≠ 0)
    (h : ¬ (left = Int64.minValue.toInt ∧ right = -1)) : InRange (left.tdiv right) := by
  have hsize : (left.tdiv right).natAbs = left.natAbs / right.natAbs := Int.natAbs_tdiv left right
  have hle : left.natAbs / right.natAbs ≤ left.natAbs := Nat.div_le_self _ _
  have hmin := Int64.toInt_minValue
  have hmax := Int64.toInt_maxValue
  rw [InRange] at hleft ⊢
  by_cases hleast : left = Int64.minValue.toInt
  · by_cases hone : right.natAbs = 1
    · have hright : right = 1 := by omega
      rw [hright, Int.tdiv_one]
      exact hleft
    · -- Any other divisor at least halves the size.
      have hhalf : left.natAbs / right.natAbs ≤ left.natAbs / 2 :=
        Nat.div_le_div_left (by omega) (by decide)
      omega
  · omega

namespace Expr

variable {scope : Scope Value} {expr : Expr}

/-- An expression all of whose nodes have values has one itself. -/
theorem inRange_of_firstOffender? (h : expr.firstOffender? scope = none) :
    InRange (expr.exactValue scope) := by
  have hroot : expr ∈ expr.nodes := by
    cases expr <;> simp [nodes]
  have hfine : ¬ expr.Offends scope := by
    simpa using List.find?_eq_none.mp h expr hroot
  exact Decidable.not_not.mp (not_or.mp hfine).2

/-- If the first node without a value is a quotient out of range, it is that of the least integer by
minus one. -/
theorem Arithmetic.operands_of_overflow (h : expr.Arithmetic scope) {left right : Expr}
    {span : Span}
    (hfirst : expr.firstOffender? scope = some (.binary .divide left right span))
    (hoverflow : (binary .divide left right span).offence scope = .integerOverflow) :
    left.exactValue scope = Int64.minValue.toInt ∧ right.exactValue scope = -1 := by
  induction h with
  | literal | known =>
      have hmem := List.mem_of_find?_eq_some hfirst
      simp [nodes] at hmem
  | @operation operator first second whole _ _ _ ihfirst ihsecond =>
      rw [firstOffender?_binary] at hfirst
      cases hleft : first.firstOffender? scope with
      | some node =>
          rw [hleft, Option.some_or] at hfirst
          exact ihfirst (hleft.trans hfirst)
      | none =>
          rw [hleft, Option.none_or] at hfirst
          cases hright : second.firstOffender? scope with
          | some node =>
              rw [hright, Option.some_or] at hfirst
              exact ihsecond (hright.trans hfirst)
          | none =>
              rw [hright, Option.none_or] at hfirst
              split at hfirst
              · next hoffends =>
                -- The quotient is the expression itself, and its operands have values.
                cases hfirst
                have hin := inRange_of_firstOffender? hleft
                have hdivides : ¬ (binary .divide left right span).dividesByZero scope = true := by
                  intro hzero
                  simp [offence, hzero] at hoverflow
                have hout := hoffends.resolve_left hdivides
                have hzero : right.exactValue scope ≠ 0 := by
                  simpa [dividesByZero] using hdivides
                exact Decidable.not_not.mp fun hother => hout (inRange_tdiv hin hzero hother)
              · cases hfirst

end Expr

/-! ### Running an expression -/

namespace Eval

variable {host : Host} {invoke : Invoke} {machine : Machine} {left right : Expr}

theorem evaluate_int (number : Int64) (span : Span) :
    evaluate host invoke (.int number span) machine = .ok (.int number) machine := by
  rw [evaluate, locate]
  rfl

theorem evaluate_name {ident : String} {held : Value} (span : Span)
    (h : machine.scope.get? ident = some held) :
    evaluate host invoke (.name ident span) machine = .ok held machine := by
  rw [evaluate, locate]
  show read (.named ident) machine = _
  rw [read, Location.read, h]

/-- An operation runs its operands from left to right, and then applies the operator. -/
theorem evaluate_binary (operator : Operator) (left right : Expr) (span : Span) :
    evaluate host invoke (.binary operator left right span) = (do
      let first ← evaluate host invoke left
      let second ← evaluate host invoke right
      ofExcept (first.apply operator second)) := by
  funext machine
  rw [evaluate, locate, evaluate, evaluate]
  show EStateM.bind (EStateM.bind _ _) _ machine = EStateM.bind _ _ machine
  simp only [EStateM.bind]
  cases value (locate host invoke left) machine with
  | error halt after => rfl
  | ok first between =>
      simp only [bind, EStateM.bind]
      cases value (locate host invoke right) between with
      | error halt after => rfl
      | ok second final =>
          simp only
          cases first.apply operator second with
          | error fault => rfl
          | ok result => rfl

/-- What running an expression gives, told by its first node without a value. -/
def ComesTo (expr : Expr) (machine : Machine) (outcome : EStateM.Result Halt Machine Value) :
    Prop :=
  match expr.firstOffender? machine.scope with
  | none =>
    ∃ number, number.toInt = expr.exactValue machine.scope ∧ outcome = .ok (.int number) machine
  | some node => outcome = .error (.fault (node.offence machine.scope)) machine

/-- An operation with operands that have values comes to its own value or its own fault. -/
theorem comesTo_operation {operator : Operator} (h : operator.isArithmetic = true) (span : Span)
    {first second : Int64} (hfirst : first.toInt = left.exactValue machine.scope)
    (hsecond : second.toInt = right.exactValue machine.scope)
    (hleft : left.firstOffender? machine.scope = none)
    (hright : right.firstOffender? machine.scope = none) :
    ComesTo (.binary operator left right span) machine
      (ofExcept ((Value.int first).apply operator (.int second)) machine) := by
  have hexact : (Expr.binary operator left right span).exactValue machine.scope =
      operator.exact first.toInt second.toInt := by
    rw [Expr.exactValue, hfirst, hsecond]
  have hzero : (Expr.binary operator left right span).dividesByZero machine.scope = true ↔
      operator = .divide ∧ second.toInt = 0 := by
    rw [hsecond]
    cases operator <;> simp [Expr.dividesByZero]
  rw [ComesTo, Expr.firstOffender?_binary, hleft, hright, Option.none_or, Option.none_or,
    Value.apply_int h, exactInt_eq]
  by_cases hdivides : operator = .divide ∧ second.toInt = 0
  · rw [if_pos (.inl (hzero.mpr hdivides)), if_pos hdivides]
    simp only [Expr.offence, if_pos (hzero.mpr hdivides)]
    rfl
  · rw [if_neg hdivides]
    by_cases hin : InRange (operator.exact first.toInt second.toInt)
    · have hfine : ¬ (Expr.binary operator left right span).Offends machine.scope := by
        rw [Expr.Offends, hzero, hexact]
        exact not_or.mpr ⟨hdivides, not_not_intro hin⟩
      rw [if_neg hfine, if_pos hin, hexact]
      exact ⟨_, toInt_ofInt hin, rfl⟩
    · rw [if_pos (.inr (hexact ▸ hin)), if_neg hin]
      simp only [Expr.offence, if_neg (mt hzero.mp hdivides)]
      rfl

/-- By induction on the expression: running it gives its exact value, or stops at the first node
that has none. -/
theorem evaluate_comesTo {expr : Expr} (h : expr.Arithmetic machine.scope) :
    ComesTo expr machine (evaluate host invoke expr machine) := by
  induction h with
  | literal number span =>
      have hnone : (Expr.int number span).firstOffender? machine.scope = none :=
        Expr.firstOffender?_of_inRange rfl rfl (inRange_toInt number)
      rw [ComesTo, hnone]
      exact ⟨number, rfl, evaluate_int number span⟩
  | @known ident number span hbound =>
      have hexact : (Expr.name ident span).exactValue machine.scope = number.toInt := by
        rw [Expr.exactValue, hbound]
      have hnone : (Expr.name ident span).firstOffender? machine.scope = none :=
        Expr.firstOffender?_of_inRange rfl rfl (hexact ▸ inRange_toInt number)
      rw [ComesTo, hnone]
      exact ⟨number, hexact.symm, evaluate_name span hbound⟩
  | @operation operator left right span harithmetic _ _ hfirst hsecond =>
      rw [evaluate_binary]
      show ComesTo _ machine (EStateM.bind _ _ machine)
      rw [EStateM.bind]
      -- The operands are run from left to right, and the first one that has no value ends the run.
      cases hleft : left.firstOffender? machine.scope with
      | some node =>
          rw [ComesTo, hleft] at hfirst
          rw [hfirst, ComesTo, Expr.firstOffender?_binary, hleft, Option.some_or]
      | none =>
          rw [ComesTo, hleft] at hfirst
          obtain ⟨first, htoInt, hrun⟩ := hfirst
          rw [hrun]
          show ComesTo _ machine (EStateM.bind _ _ machine)
          rw [EStateM.bind]
          cases hright : right.firstOffender? machine.scope with
          | some node =>
              rw [ComesTo, hright] at hsecond
              rw [hsecond, ComesTo, Expr.firstOffender?_binary, hleft, hright, Option.none_or,
                Option.some_or]
          | none =>
              rw [ComesTo, hright] at hsecond
              obtain ⟨second, htoInt', hrun'⟩ := hsecond
              rw [hrun']
              exact comesTo_operation harithmetic span htoInt htoInt' hleft hright

/-- Arithmetic is exact or it stops.  Running an expression that is built by arithmetic from
integers and names of integers gives its exact value, if all its nodes have values; and else the
fault of the first node, in the order in which nodes are computed, that has none: a division by zero
if it divides by zero, and an overflow if its exact value is out of range, which happens to a
quotient only if the least integer is divided by minus one.  In both cases the machine is left as it
was. -/
theorem arithmetic_exact_or_stops (host : Host) (invoke : Invoke) (machine : Machine) (expr : Expr)
    (h : expr.Arithmetic machine.scope) :
    ((∀ node ∈ expr.nodes, ¬ node.Offends machine.scope) ∧
      ∃ number, evaluate host invoke expr machine = .ok (.int number) machine ∧
        number.toInt = expr.exactValue machine.scope) ∨
    ∃ earlier node later, expr.nodes = earlier ++ node :: later ∧
      (∀ other ∈ earlier, ¬ other.Offends machine.scope) ∧ node.Offends machine.scope ∧
      evaluate host invoke expr machine = .error (.fault (node.offence machine.scope)) machine ∧
      ∀ left right span, node = .binary .divide left right span →
        node.offence machine.scope = .integerOverflow →
        left.exactValue machine.scope = Int64.minValue.toInt ∧
          right.exactValue machine.scope = -1 := by
  have hending : ComesTo expr machine (evaluate host invoke expr machine) := evaluate_comesTo h
  rw [ComesTo] at hending
  cases hfirst : expr.firstOffender? machine.scope with
  | none =>
      rw [hfirst] at hending
      obtain ⟨number, htoInt, hrun⟩ := hending
      refine .inl ⟨fun node hnode => ?_, number, hrun, htoInt⟩
      simpa using List.find?_eq_none.mp hfirst node hnode
  | some node =>
      rw [hfirst] at hending
      obtain ⟨hoffends, earlier, later, hnodes, hfine⟩ := List.find?_eq_some_iff_append.mp hfirst
      refine .inr ⟨earlier, node, later, hnodes, fun other hother => ?_, ?_, hending, ?_⟩
      · simpa using hfine other hother
      · simpa using hoffends
      · rintro left right span rfl hoverflow
        exact h.operands_of_overflow hfirst hoverflow

/-- A machine in which a name is bound to the least integer. -/
def holdingLeast : Machine :=
  ⟨.ofGlobals [("least", .int Int64.minValue)], .empty⟩

theorem get?_holdingLeast : holdingLeast.scope.get? "least" = some (.int Int64.minValue) := by
  show Scope.get? ⟨_, #[], _⟩ _ = _
  rw [Scope.get?_global]
  simp

/-- The least integer divided by minus one. -/
def leastByMinusOne : Expr :=
  let span : Span := .within "exact.fl" 0 15
  .binary .divide (.name "least" span) (.binary .subtract (.int 2 span) (.int 3 span) span) span

/-- Behind that quotient one that divides by zero. -/
def quotientsWithoutValue : Expr :=
  let span : Span := .within "exact.fl" 0 23
  .binary .add leastByMinusOne (.binary .divide (.int 1 span) (.int 0 span) span) span

theorem firstOffender?_quotientsWithoutValue :
    quotientsWithoutValue.firstOffender? holdingLeast.scope = some leastByMinusOne := by
  simp [quotientsWithoutValue, leastByMinusOne, Expr.firstOffender?, Expr.nodes, Expr.Offends,
    Expr.dividesByZero, Expr.exactValue, get?_holdingLeast, Operator.exact, InRange,
    Int64.toInt_maxValue]

/-- Of two nodes without a value the first one counts: here the overflow, and not the division by
zero behind it. -/
theorem quotientsWithoutValue_overflow :
    quotientsWithoutValue.Arithmetic holdingLeast.scope ∧
    evaluate (.accepting default) (callWithin (.accepting default) 1) quotientsWithoutValue
      holdingLeast = .error (.fault .integerOverflow) holdingLeast := by
  have h : quotientsWithoutValue.Arithmetic holdingLeast.scope :=
    .operation _ rfl
      (.operation _ rfl (.known _ get?_holdingLeast)
        (.operation _ rfl (.literal _ _) (.literal _ _)))
      (.operation _ rfl (.literal _ _) (.literal _ _))
  refine ⟨h, ?_⟩
  rcases arithmetic_exact_or_stops (.accepting default) (callWithin (.accepting default) 1)
    holdingLeast quotientsWithoutValue h with
      ⟨hfine, -⟩ | ⟨earlier, node, later, hnodes, hfine, hoffends, hrun, -⟩
  · have hmem := List.mem_of_find?_eq_some firstOffender?_quotientsWithoutValue
    have hoffends := List.find?_some firstOffender?_quotientsWithoutValue
    exact absurd (by simpa using hoffends) (hfine leastByMinusOne hmem)
  · have hfirst : quotientsWithoutValue.firstOffender? holdingLeast.scope = some node :=
      List.find?_eq_some_iff_append.mpr
        ⟨by simpa using hoffends, earlier, later, hnodes, by simpa using hfine⟩
    rw [firstOffender?_quotientsWithoutValue] at hfirst
    cases hfirst
    rw [hrun]
    rfl

end Eval

end Quill
