import Quill.Proofs.Closures.Handles

/-!
# The history of a run

A run takes its scope through a history, in which every scope comes from the one before by a single
step: a name is bound, a function is declared, or a frame is pushed or popped.  All functions that
are ever stored were declared in that history.  So the frame in which a function was declared can be
told from the history alone, without its handle, and the handle resolves to that frame just if the
stack never fell below it since.
-/

namespace Quill

/-- The scope after a function is declared in its innermost frame. -/
def Scope.withFunction (scope : Scope Value) (decl : FnDecl Stmt) : Scope Value :=
  scope.insert decl.name (.function decl scope.currentHandle)

/-- The scopes that a run went through, the last one first. -/
abbrev Past := List (Scope Value)

/-- The function value was made by a declaration in the innermost frame of `birth`, and `later` are
the scopes since then. -/
structure DeclaredIn (past later : Past) (birth : Scope Value) (decl : FnDecl Stmt)
    (frame : FrameHandle) : Prop where
  handle : frame = birth.currentHandle
  split : ∃ earlier, past = later ++ birth.withFunction decl :: birth :: earlier

/-- The function value was made by a declaration. -/
def Declared (past : Past) (decl : FnDecl Stmt) (frame : FrameHandle) : Prop :=
  ∃ later birth, DeclaredIn past later birth decl frame

/-- The innermost frame of `birth` was on the stack all the time. -/
def OnStackSince (birth : Scope Value) (later : Past) : Prop :=
  ∀ scope ∈ later, birth.current ≤ scope.current

/-- The scopes of a run up to some point of it. -/
inductive History : Past → Prop
  | start : History [Machine.start.scope]
  | bind {scope : Scope Value} {past : Past} (id : FrameId) (name : String) {value : Value}
    (before : History (scope :: past)) (known : value.Functions (Declared (scope :: past))) :
    History (scope.insertIn id name value :: scope :: past)
  | declare {scope : Scope Value} {past : Past} (decl : FnDecl Stmt)
    (before : History (scope :: past)) : History (scope.withFunction decl :: scope :: past)
  | push {scope : Scope Value} {past : Past} (parent : FrameId)
    (before : History (scope :: past)) : History (scope.push parent none :: scope :: past)
  | pop {scope outer : Scope Value} {past : Past} (before : History (scope :: past))
    (popped : scope.pop = .ok outer) : History (outer :: scope :: past)

/-- What was declared stays declared. -/
theorem Declared.append {past : Past} {decl : FnDecl Stmt} {frame : FrameHandle}
    (h : Declared past decl frame) (more : Past) : Declared (more ++ past) decl frame := by
  obtain ⟨later, birth, hhandle, earlier, rfl⟩ := h
  exact ⟨more ++ later, birth, hhandle, earlier, (List.append_assoc ..).symm⟩

namespace Value

variable {P Q : FnDecl Stmt → FrameHandle → Prop}

mutual

/-- A property of all functions in a value may be weakened. -/
theorem Functions.imp (hweaker : ∀ decl frame, P decl frame → Q decl frame) :
    (value : Value) → value.Functions P → value.Functions Q
  | .function decl frame, h => hweaker decl frame h
  | .array elements, h => FunctionsAll.imp hweaker elements h
  | .builtin _, _ | .int _, _ | .float _, _ | .string _, _ | .bool _, _ | .void, _ => trivial

theorem FunctionsAll.imp (hweaker : ∀ decl frame, P decl frame → Q decl frame) :
    (values : List Value) → FunctionsAll P values → FunctionsAll Q values
  | [], _ => trivial
  | value :: values, h =>
    ⟨Functions.imp hweaker value h.1, FunctionsAll.imp hweaker values h.2⟩

end

/-- A value whose functions were declared stays one as the history goes on. -/
theorem Functions.append {past : Past} {value : Value} (h : value.Functions (Declared past))
    (more : Past) : value.Functions (Declared (more ++ past)) :=
  Functions.imp (fun _ _ hdeclared => hdeclared.append more) value h

end Value

namespace History

variable {scope : Scope Value} {past : Past}

/-- Each scope of a history comes from the one before by a step. -/
theorem moves {before : Scope Value} {earlier : Past} (h : History (scope :: before :: earlier)) :
    before.Moves scope ∧ History (before :: earlier) := by
  cases h with
  | bind id name hbefore hknown => exact ⟨.bind id name _, hbefore⟩
  | declare decl hbefore => exact ⟨.bind _ _ _, hbefore⟩
  | push parent hbefore => exact ⟨.push parent none, hbefore⟩
  | pop hbefore hpopped => exact ⟨.pop hpopped, hbefore⟩

/-- A history up to an earlier point. -/
theorem of_append {later : Past} (h : History (later ++ scope :: past)) :
    History (scope :: past) := by
  induction later with
  | nil => exact h
  | cons last later ih =>
      apply ih
      cases later with
      | nil => exact h.moves.2
      | cons before later => exact h.moves.2

/-- In a run the serial numbers stay below the count of pushes. -/
theorem counted (h : History (scope :: past)) : scope.Counted := by
  induction past generalizing scope with
  | nil =>
      cases h
      intro index serial hserial
      simp [Scope.serials, Machine.start, Scope.ofGlobals] at hserial
  | cons before earlier ih => exact (ih h.moves.2).moves h.moves.1

/-- All functions that a scope holds were declared. -/
theorem stored (h : History (scope :: past)) :
    scope.All (Value.Functions (Declared (scope :: past))) := by
  induction past generalizing scope with
  | nil =>
      cases h
      apply Scope.all_ofGlobals
      intro entry hentry
      obtain ⟨builtin, -, rfl⟩ := List.mem_map.1 hentry
      exact trivial
  | cons before earlier ih =>
      have hbefore : before.All (Value.Functions (Declared (scope :: before :: earlier))) := by
        intro id name value hvalue
        exact (ih h.moves.2 id name value hvalue).append [scope]
      cases h with
      | bind id name _ hknown =>
          apply hbefore.insertIn
          exact hknown.append [_]
      | declare decl _ =>
          apply hbefore.insert
          exact ⟨[], before, rfl, earlier, rfl⟩
      | push parent _ => exact hbefore.push parent none
      | pop _ hpopped => exact hbefore.pop hpopped

/-- The innermost frame of a scope of the history is still there if it was on the stack all the
time. -/
theorem fate {birth : Scope Value} {later earlier : Past}
    (h : History (later ++ birth :: earlier)) :
    birth.Fate (later.head?.getD birth) (OnStackSince birth later) := by
  induction later with
  | nil =>
      apply (Scope.Fate.start birth).of_iff
      simp [OnStackSince]
  | cons last later ih =>
      have hlast : (later.head?.getD birth).Moves last ∧ History (later ++ birth :: earlier) := by
        cases later with
        | nil => exact h.moves
        | cons before later => exact h.moves
      apply ((ih hlast.2).moves hlast.1).of_iff
      rw [OnStackSince, OnStackSince, List.forall_mem_cons, and_comm]

/-- The handle of a function that was declared in a run resolves to the frame in which it was
declared, as long as that frame is on the stack, and never to another one. -/
theorem resolve_iff {later : Past} {birth : Scope Value} {decl : FnDecl Stmt}
    {frame : FrameHandle} (h : History (scope :: past))
    (hdeclared : DeclaredIn (scope :: past) later birth decl frame) (id : FrameId) :
    scope.resolve frame = some id ↔ OnStackSince birth later ∧ id = birth.current := by
  obtain ⟨rfl, earlier, hsplit⟩ := hdeclared
  -- The declaration itself is the first step after `birth`, and it keeps the frames.
  have hcourse : scope :: past = (later ++ [birth.withFunction decl]) ++ birth :: earlier := by
    rw [hsplit, List.append_assoc, List.singleton_append]
  have hpresent : (later ++ [birth.withFunction decl]).head?.getD birth = scope := by
    cases later with
    | nil => exact (List.cons.inj hsplit).1.symm
    | cons last later => exact (List.cons.inj hsplit).1.symm
  have hsame : (birth.withFunction decl).current = birth.current :=
    (Scope.kept_insert birth decl.name _).size
  have hsince : OnStackSince birth (later ++ [birth.withFunction decl]) ↔
      OnStackSince birth later := by
    rw [OnStackSince, List.forall_mem_append, List.forall_mem_singleton, hsame]
    exact and_iff_left (Nat.le_refl _)
  rw [hcourse] at h
  have hfate := h.fate.of_iff hsince
  rw [hpresent] at hfate
  exact hfate.resolve_iff h.of_append.counted

end History

end Quill
