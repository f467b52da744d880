import Quill.Proofs.Ensures
import Quill.Proofs.Parts

/-!
# Where runs of statements end

Two facts tie the syntax of a statement to the way its runs end, whatever the calls inside it do.  A
statement without a return in its blocks never returns.  A statement that is judged to return does
not reach its end, as long as no loop in it is judged by its body: a loop may run no round at all.
-/

namespace Quill

/-- Whether the statement is no loop that is judged to return by its body. -/
def Stmt.loopFallsThrough (stmt : Stmt) : Bool :=
  stmt.loopBody?.all fun body => ReturnPath.ofBlock body = .mayFallThrough

/-- A loop that falls through is one whose body is not judged to return. -/
theorem Stmt.loopFallsThrough_iff {stmt : Stmt} :
    stmt.loopFallsThrough = true ↔
      ∀ body, stmt.loopBody? = some body → ReturnPath.ofBlock body ≠ .returns := by
  rw [loopFallsThrough]
  cases stmt.loopBody? with
  | none => simp
  | some body => cases hpath : ReturnPath.ofBlock body <;> simp [hpath]

namespace ReturnPath

theorem both_eq_returns {first second : ReturnPath} :
    both first second = returns ↔ first = returns ∧ second = returns := by
  cases first <;> cases second <;> decide

theorem either_eq_returns {first second : ReturnPath} :
    either first second = returns ↔ first = returns ∨ second = returns := by
  cases first <;> cases second <;> decide

end ReturnPath

namespace Eval

variable {α : Type} {host : Host} {invoke : Invoke} {fuel : Nat}

/-- Every result of the action has the property, in whatever machine it is run. -/
def Ends (action : Eval α) (result : α → Prop) : Prop :=
  Ensures (fun _ => True) action (fun value _ => result value) (fun _ _ => True)

namespace Ends

variable {β : Type} {result : α → Prop}

/-- Nothing is asked of the results. -/
theorem any (action : Eval α) : Ends action fun _ => True := by
  intro machine _
  cases action machine with
  | ok value final => trivial
  | error halt final => trivial

theorem bind {action : Eval β} {next : β → Eval α} (h : ∀ value, Ends (next value) result) :
    Ends (action >>= next) result :=
  Ensures.bind (any action) fun value => h value

theorem choose {condition : Eval Bool} {yes no : Eval Flow} {result : Flow → Prop}
    (hyes : Ends yes result) (hno : Ends no result) :
    Ends (Eval.choose condition yes no) result :=
  Ensures.choose (any condition) hyes hno

end Ends

/-! ### Statements without a return -/

/-- The flow goes on after the statement. -/
def GoesOn (flow : Flow) : Prop :=
  flow = .normal

theorem Ends.andThen_goesOn {first next : Eval Flow} (hfirst : Ends first GoesOn)
    (hnext : Ends next GoesOn) : Ends (andThen first next) GoesOn :=
  Ensures.andThen hfirst (hnext.assuming fun _ _ => trivial) fun _ _ h => h

mutual

/-- A statement without a return in its blocks never returns. -/
theorem ends_stmt_goesOn : (stmt : Stmt) → (∀ part ∈ stmt.parts, part.isReturn = false) →
    Ends (Eval.stmt host invoke fuel stmt) GoesOn
  | .function _, _ | .expr _, _ => Ends.bind fun _ => Ensures.pure fun _ _ => rfl
  | .bind _ _ _, _ => Ends.bind fun _ => Ends.bind fun _ => Ensures.pure fun _ _ => rfl
  | .ret value span, hparts => by
      have hreturn := hparts (.ret value span) (by simp [Stmt.parts])
      exact Bool.noConfusion hreturn
  | .branch ⟨_, body, _⟩ others otherwise, hparts => by
      simp only [Stmt.parts, List.mem_cons, List.mem_append, forall_eq_or_imp] at hparts
      have hlast := ends_lastBlock_goesOn otherwise fun part hmem => hparts.2 part (.inr hmem)
      exact Ends.choose
        (ends_block_goesOn body fun part hmem => hparts.2 part (.inl (.inl hmem)))
        (ends_arms_goesOn others (fun part hmem => hparts.2 part (.inl (.inr hmem))) hlast)
  | .loop _ body _, hparts => by
      have hbody : Ends (Eval.block host invoke fuel body) GoesOn :=
        ends_block_goesOn body fun part hmem => hparts part (List.mem_cons_of_mem _ hmem)
      exact Ensures.repeatWhile (Ends.any _) hbody (fun _ _ => trivial) (fun _ _ => rfl)
        (fun _ _ => trivial) fuel
  | .range _ _ _ body _, hparts => by
      have hbody : Ends (Eval.block host invoke fuel body) GoesOn :=
        ends_block_goesOn body fun part hmem => hparts part (List.mem_cons_of_mem _ hmem)
      refine Ends.bind fun first => Ends.bind fun last => ?_
      exact Ensures.countFrom (fun _ => Ends.bind fun _ => hbody) (fun _ _ => trivial)
        (fun _ _ => rfl) _ _
  | .block inner, hparts =>
    ends_block_goesOn inner fun part hmem => hparts part (List.mem_cons_of_mem _ hmem)

theorem ends_arms_goesOn {last : Eval Flow} : (arms : List (Arm Stmt)) →
    (∀ part ∈ Stmt.partsOfArms arms, part.isReturn = false) → Ends last GoesOn →
    Ends (Eval.arms host invoke fuel arms last) GoesOn
  | [], _, hlast => hlast
  | ⟨_, body, _⟩ :: others, hparts, hlast => by
      simp only [Stmt.partsOfArms, List.mem_append] at hparts
      exact Ends.choose (ends_block_goesOn body fun part hmem => hparts part (.inl hmem))
        (ends_arms_goesOn others (fun part hmem => hparts part (.inr hmem)) hlast)

theorem ends_lastBlock_goesOn : (last : Option (Block Stmt)) →
    (∀ part ∈ Stmt.partsOfLast last, part.isReturn = false) →
    Ends (Eval.lastBlock host invoke fuel last) GoesOn
  | some inner, hparts => ends_block_goesOn inner hparts
  | none, _ => Ensures.pure fun _ _ => rfl

theorem ends_block_goesOn : (block : Block Stmt) →
    (∀ part ∈ Stmt.partsOfBlock block, part.isReturn = false) →
    Ends (Eval.block host invoke fuel block) GoesOn
  | ⟨body, _⟩, hparts => ends_stmts_goesOn body hparts

theorem ends_stmts_goesOn : (stmts : List Stmt) →
    (∀ part ∈ Stmt.partsOfAll stmts, part.isReturn = false) →
    Ends (Eval.stmts host invoke fuel stmts) GoesOn
  | [], _ => Ensures.pure fun _ _ => rfl
  | stmt :: stmts, hparts => by
      simp only [Stmt.partsOfAll, List.mem_append] at hparts
      exact Ends.andThen_goesOn
        (ends_stmt_goesOn stmt fun part hmem => hparts part (.inl hmem))
        (ends_stmts_goesOn stmts fun part hmem => hparts part (.inr hmem))

end

/-! ### Statements that are judged to return -/

/-- The flow ends the call. -/
def Leaves (flow : Flow) : Prop :=
  ∃ value, flow = .returned value

theorem Ends.andThen_leaves {first next : Eval Flow} (h : Ends first Leaves ∨ Ends next Leaves) :
    Ends (andThen first next) Leaves := by
  rcases h with hfirst | hnext
  -- The second action is not reached.
  · refine Ensures.andThen hfirst ?_ fun value _ _ => ⟨value, rfl⟩
    rintro machine ⟨value, hvalue⟩
    exact Flow.noConfusion hvalue
  · exact Ensures.andThen (Ends.any first) hnext fun value _ _ => ⟨value, rfl⟩

mutual

/-- A statement that is judged to return does not reach its end, unless a loop in it is judged to
return by its body. -/
theorem ends_stmt_leaves : (stmt : Stmt) → (∀ part ∈ stmt.parts, part.loopFallsThrough = true) →
    ReturnPath.ofStmt stmt = .returns → Ends (Eval.stmt host invoke fuel stmt) Leaves
  | .function _, _, hpath | .bind _ _ _, _, hpath | .expr _, _, hpath => by
      exact ReturnPath.noConfusion hpath
  | .ret _ _, _, _ => Ends.bind fun value => Ensures.pure fun _ _ => ⟨value, rfl⟩
  | .branch ⟨_, body, _⟩ others otherwise, hparts, hpath => by
      simp only [Stmt.parts, List.mem_cons, List.mem_append, forall_eq_or_imp] at hparts
      obtain ⟨hfirst, hothers⟩ := ReturnPath.both_eq_returns.mp hpath
      exact Ends.choose
        (ends_block_leaves body (fun part hmem => hparts.2 part (.inl (.inl hmem))) hfirst)
        (ends_arms_leaves others (fun part hmem => hparts.2 part (.inl (.inr hmem)))
          (ends_lastBlock_leaves otherwise fun part hmem => hparts.2 part (.inr hmem)) hothers)
  -- Loops are judged by their bodies, and those that are judged to return are excluded.
  | .loop condition body span, hparts, hpath => by
      have hloop := hparts (.loop condition body span) (by simp [Stmt.parts])
      exact absurd hpath (Stmt.loopFallsThrough_iff.mp hloop body rfl)
  | .range counter lower upper body span, hparts, hpath => by
      have hloop := hparts (.range counter lower upper body span) (by simp [Stmt.parts])
      exact absurd hpath (Stmt.loopFallsThrough_iff.mp hloop body rfl)
  | .block inner, hparts, hpath =>
    ends_block_leaves inner (fun part hmem => hparts part (List.mem_cons_of_mem _ hmem)) hpath

theorem ends_arms_leaves {last : Eval Flow} {path : ReturnPath} : (arms : List (Arm Stmt)) →
    (∀ part ∈ Stmt.partsOfArms arms, part.loopFallsThrough = true) →
    (path = .returns → Ends last Leaves) → ReturnPath.ofArms arms path = .returns →
    Ends (Eval.arms host invoke fuel arms last) Leaves
  | [], _, hlast, hpath => hlast hpath
  | ⟨_, body, _⟩ :: others, hparts, hlast, hpath => by
      simp only [Stmt.partsOfArms, List.mem_append] at hparts
      obtain ⟨hfirst, hothers⟩ := ReturnPath.both_eq_returns.mp hpath
      exact Ends.choose (ends_block_leaves body (fun part hmem => hparts part (.inl hmem)) hfirst)
        (ends_arms_leaves others (fun part hmem => hparts part (.inr hmem)) hlast hothers)

theorem ends_lastBlock_leaves : (last : Option (Block Stmt)) →
    (∀ part ∈ Stmt.partsOfLast last, part.loopFallsThrough = true) →
    ReturnPath.ofOtherwise last = .returns → Ends (Eval.lastBlock host invoke fuel last) Leaves
  | some inner, hparts, hpath => ends_block_leaves inner hparts hpath
  | none, _, hpath => by exact ReturnPath.noConfusion hpath

theorem ends_block_leaves : (block : Block Stmt) →
    (∀ part ∈ Stmt.partsOfBlock block, part.loopFallsThrough = true) →
    ReturnPath.ofBlock block = .returns → Ends (Eval.block host invoke fuel block) Leaves
  | ⟨body, _⟩, hparts, hpath => ends_stmts_leaves body hparts hpath

theorem ends_stmts_leaves : (stmts : List Stmt) →
    (∀ part ∈ Stmt.partsOfAll stmts, part.loopFallsThrough = true) →
    ReturnPath.ofStmts stmts = .returns → Ends (Eval.stmts host invoke fuel stmts) Leaves
  | [], _, hpath => by exact ReturnPath.noConfusion hpath
  | stmt :: stmts, hparts, hpath => by
      simp only [Stmt.partsOfAll, List.mem_append] at hparts
      apply Ends.andThen_leaves
      rcases ReturnPath.either_eq_returns.mp hpath with hfirst | hothers
      · exact .inl (ends_stmt_leaves stmt (fun part hmem => hparts part (.inl hmem)) hfirst)
      · exact .inr (ends_stmts_leaves stmts (fun part hmem => hparts part (.inr hmem)) hothers)

end

/-- The judgement on return paths is sound, apart from loops that it takes to run at least once.  If
a block is judged to return, and no loop in it, outside of functions declared there, has a body that
is judged to return, then no run of the block comes to its end: from whatever machine it starts, and
whatever the calls in it do, it returns a value or stops. -/
theorem block_judged_to_return_leaves {block : Block Stmt}
    (hloops : ∀ part ∈ Stmt.partsOfBlock block, ∀ body, part.loopBody? = some body →
      ReturnPath.ofBlock body ≠ .returns)
    (hreturns : ReturnPath.ofBlock block = .returns) (host : Host) (invoke : Invoke) (fuel : Nat)
    (machine : Machine) :
    (∃ value final, Eval.block host invoke fuel block machine = .ok (.returned value) final) ∨
      ∃ halt final, Eval.block host invoke fuel block machine = .error halt final := by
  have hparts : ∀ part ∈ Stmt.partsOfBlock block, part.loopFallsThrough = true :=
    fun part hmem => Stmt.loopFallsThrough_iff.mpr (hloops part hmem)
  have hblock : Ends (Eval.block host invoke fuel block) Leaves :=
    ends_block_leaves block hparts hreturns
  have hends := hblock machine trivial
  cases hrun : Eval.block host invoke fuel block machine with
  | ok flow final =>
      rw [hrun] at hends
      obtain ⟨value, rfl⟩ := hends
      exact .inl ⟨value, final, rfl⟩
  | error halt final => exact .inr ⟨halt, final, rfl⟩

/-- Counts up to a limit and compares; every way through the branch returns.  The loop does not, and
neither does the function declared in front of it when it is declared. -/
def countAndCompare : Block Stmt :=
  ⟨[.function ⟨⟨0, 0⟩, "twice", [⟨"n", .int⟩], .int,
      ⟨[.loop (.bool true default) ⟨[.ret (.name "n" default) default], default⟩ default],
        default⟩, default⟩,
    .range "i" (.int 0 default) (.name "limit" default)
      ⟨[.expr (.call "twice" default [.name "i" default] default)], default⟩ default,
    .branch ⟨.binary .less (.name "limit" default) (.int 3 default) default,
        ⟨[.ret (.string "few" default) default], default⟩, default⟩
      [⟨.bool false default, ⟨[.block ⟨[.ret (.string "none" default) default], default⟩],
        default⟩, default⟩]
      (some ⟨[.ret (.string "many" default) default,
        .expr (.call "print" default [] default)], default⟩)], default⟩

theorem countAndCompare_leaves :
    (∀ part ∈ Stmt.partsOfBlock countAndCompare, ∀ body, part.loopBody? = some body →
      ReturnPath.ofBlock body ≠ .returns) ∧
    ReturnPath.ofBlock countAndCompare = .returns ∧
    ∀ depth fuel machine, ∀ final, Eval.block (.accepting default)
      (callWithin (.accepting default) depth) fuel countAndCompare machine ≠
        .ok .normal final := by
  have hloops : ∀ part ∈ Stmt.partsOfBlock countAndCompare, ∀ body,
      part.loopBody? = some body → ReturnPath.ofBlock body ≠ .returns := by
    intro part hmem
    apply Stmt.loopFallsThrough_iff.mp
    have hall : (Stmt.partsOfBlock countAndCompare).all Stmt.loopFallsThrough = true := by decide
    exact List.all_eq_true.mp hall part hmem
  have hreturns : ReturnPath.ofBlock countAndCompare = .returns := by decide
  refine ⟨hloops, hreturns, fun depth fuel machine final hnormal => ?_⟩
  rcases block_judged_to_return_leaves hloops hreturns (.accepting default)
    (callWithin (.accepting default) depth) fuel machine with
    ⟨value, last, hreturned⟩ | ⟨halt, last, hstopped⟩
  · rw [hreturned] at hnormal
    cases hnormal
  · rw [hstopped] at hnormal
    cases hnormal

-- A loop without rounds comes to its end, although its body is judged to return.
example (machine : Machine) :
    let idle : Block Stmt :=
      ⟨[.loop (.bool false default) ⟨[.ret (.int 1 default) default], default⟩ default], default⟩
    ReturnPath.ofBlock idle = .returns ∧
      Eval.block host invoke 1 idle machine = .ok .normal machine :=
  ⟨rfl, rfl⟩

end Eval

end Quill
