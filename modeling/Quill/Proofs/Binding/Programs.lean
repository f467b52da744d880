import Quill.Proofs.Binding.Walk

/-!
# Names in runs of whole programs

There are three ways in which a program covers a name, and an account for each of them.  The name
may be bound in the global frame, where every search ends.  It may be bound wherever the text
mentions it; then each function that is stored in a run was declared where the names that its body
needs were bound, and they still are as long as its frame is on the stack.  Or it becomes bound by
a statement at the top before any function is mentioned, so that none is called until then.
-/

namespace Quill

namespace Account

/-- Nothing is known, and complaints are not ruled out. -/
def loose (name : String) : Account where
  name := name
  sure := False
  visible _ := True
  allows _ := True
  fits _ := True
  function _ _ _ := True
  leads _ h := h
  known _ h := h
  declare _ _ _ _ := trivial
  callee _ _ _ := ⟨fun _ => trivial, fun _ => trivial, trivial, false, fun h => h.elim,
    fun h => h.elim⟩
  enter h := h
  leave _ _ h := h

/-- The name is bound in the global frame. -/
def global (name : String) : Account where
  name := name
  sure := True
  visible _ := True
  allows _ := True
  fits scope := scope.Straight ∧ name ∈ scope.globals
  function _ _ _ := True
  leads hleads h := ⟨h.1.kept hleads.kept, hleads.kept.globals name h.2⟩
  known _ h := h
  declare _ _ _ _ := trivial
  callee := by
    rintro scope decl frame parent ⟨hstraight, hglobal⟩ - hresolve
    have hpushed : (scope.push parent none).Straight :=
      hstraight.push (Scope.le_current_of_resolve hresolve) none
    refine ⟨fun _ => trivial, fun _ => trivial, ⟨hpushed, hglobal⟩, true,
      fun _ => Stmt.coversBlock_true name decl.body, fun _ _ => ?_⟩
    exact hpushed.isSome_get?_iff.mpr (hpushed.reaches_global hglobal _ (Nat.le_refl _))
  enter h := h
  leave _ _ h := h

/-- The name is bound wherever it is mentioned: a function value belongs to a frame from which the
name is reached, if its body needs that. -/
def covered (name : String) : Account where
  name := name
  sure := True
  visible _ := True
  allows _ := True
  fits scope := scope.Straight ∧ scope.Counted
  function scope decl frame := frame.serial ≤ scope.pushed ∧
    ∀ id, scope.resolve frame = some id →
      ∃ bound, decl.covers name bound = true ∧ (bound = true → scope.Reaches name id)
  leads := by
    rintro free scope next hleads ⟨hstraight, hcounted⟩
    refine ⟨hstraight.kept hleads.kept, fun index serial hserial => ?_⟩
    rw [hleads.kept.serials_eq] at hserial
    exact Nat.le_trans (hcounted index serial hserial) hleads.pushed
  known := by
    rintro free scope next decl frame hleads ⟨hserial, hcovers⟩
    refine ⟨Nat.le_trans hserial hleads.pushed, fun id hid => ?_⟩
    rw [hleads.kept.resolve_eq] at hid
    obtain ⟨bound, hbound, hreaches⟩ := hcovers id hid
    exact ⟨bound, hbound, fun h => (hreaches h).kept hleads.kept⟩
  declare := by
    rintro scope decl bound ⟨hstraight, hcounted⟩ - hcovers hsome
    refine ⟨hcounted.serial_currentHandle, fun id hid => ⟨bound, hcovers trivial, fun hbound => ?_⟩⟩
    obtain ⟨rfl, -⟩ := Scope.resolve_eq_some_iff.mp hid
    rw [Scope.currentHandle_id]
    exact hstraight.isSome_get?_iff.mp (hsome trivial hbound)
  callee := by
    rintro scope decl frame parent ⟨hstraight, hcounted⟩ ⟨-, hcovers⟩ hresolve
    have hpushed : (scope.push parent none).Straight :=
      hstraight.push (Scope.le_current_of_resolve hresolve) none
    obtain ⟨bound, hbound, hreaches⟩ := hcovers parent hresolve
    refine ⟨fun _ => trivial, fun _ => trivial, ⟨hpushed, hcounted.moves (.push parent none)⟩,
      bound, fun _ => hbound, fun _ h => ?_⟩
    -- The search goes on from the new frame to the one of the declaration.
    apply hpushed.isSome_get?_iff.mpr
    rw [Scope.current_push]
    exact .up (Scope.frame?_push ..) ((hreaches h).push parent none)
  enter := by
    rintro scope decl frame parent ⟨hserial, hcovers⟩
    refine ⟨Nat.le_succ_of_le hserial, fun id hid => ?_⟩
    obtain ⟨bound, hbound, hreaches⟩ := hcovers id (Scope.resolve_of_push hserial hid)
    exact ⟨bound, hbound, fun h => (hreaches h).push parent none⟩
  leave := by
    rintro inner outer decl frame ⟨hstraight, -⟩ hpop ⟨hserial, hcovers⟩
    refine ⟨?_, fun id hid => ?_⟩
    · rw [(Scope.serials_pop hpop).2]
      exact hserial
    · obtain ⟨bound, hbound, hreaches⟩ := hcovers id (Scope.resolve_of_pop hpop hid)
      have hle := Scope.le_current_of_resolve hid
      exact ⟨bound, hbound, fun h => (hreaches h).pop hstraight hpop hle⟩

/-- The statements at the top run, and none of them mentions or declares a function. -/
def opening (name : String) (names : List String) : Account where
  name := name
  sure := True
  visible other := other ∉ names
  allows _ := False
  fits scope := scope.current = Scope.global
  function _ _ _ := False
  leads hleads h := hleads.kept.current_eq.trans h
  known _ h := h
  declare _ h _ _ := h
  callee _ h _ := h.elim
  enter h := h
  leave _ _ h := h

variable {account : Account} {free : Prop} {scope : Scope Value} {host : Host} {invoke : Invoke}
  {bound : Bool}

/-! ### Running a program -/

theorem topLevel_cons {stmt : Stmt} (h : stmt.decl? = none) (fuel : Nat) (others : List Stmt) :
    Eval.topLevel host invoke fuel (stmt :: others) = (do
      match ← Eval.stmt host invoke fuel stmt with
      | .normal => Eval.topLevel host invoke fuel others
      | .returned _ => Eval.fail .returnOutsideFunction) := by
  cases stmt with
  | function decl => cases h
  | _ => rfl

/-- Running the statements at the top of a program. -/
theorem keeps_topLevel (hinvoke : account.Answers invoke) (fuel : Nat) (program : List Stmt)
    (hcovers : account.sure → Program.coversTop account.name bound program = true)
    (hknows : account.Knows bound scope) (hadmits : ∀ stmt, account.Admits free stmt) :
    account.Keeps free scope (Eval.topLevel host invoke fuel program) Any := by
  induction program generalizing bound scope with
  | nil => exact Keeps.pure trivial
  | cons stmt others ih =>
      cases hdecl : stmt.decl? with
      | some decl =>
          obtain rfl := Stmt.eq_function_of_decl? hdecl
          exact ih hcovers hknows
      | none =>
          rw [Program.coversTop_cons hdecl, Bool.and_eq_true] at hcovers
          rw [topLevel_cons hdecl]
          refine Keeps.bind (keeps_stmt hinvoke fuel stmt bound scope
            (fun hsure => (hcovers hsure).1) hknows fun part _ => hadmits part) ?_
          intro next flow _ hends
          cases flow with
          | normal => exact ih (fun hsure => (hcovers hsure).2) (hends.knows rfl)
          | returned value => exact Keeps.fail (permits_of_isUnbound rfl)

/-- Calling the function `main`. -/
theorem ensures_callMain (hinvoke : account.Answers invoke) (hvisible : account.visible "main") :
    Eval.Ensures (fun machine => account.Sound machine.scope) (Eval.callMain invoke)
      (fun _ machine => account.Sound machine.scope) fun halt _ => account.Permits halt := by
  refine Eval.Ensures.callMain (fun _ _ => permits_noMain) fun decl frame _ => ?_
  rintro machine ⟨hsound, hfound⟩
  have hmain := hsound.get hvisible hfound
  have hcall := hinvoke True machine.scope decl frame [] hmain fun _ hnone =>
    absurd hnone List.not_mem_nil
  exact Eval.Ensures.imp hcall (fun _ _ h => h.2.1) machine ⟨rfl, hsound⟩

end Account

/-! ### Starting a program -/

namespace Value

variable {P : FnDecl Stmt → FrameHandle → Prop}

mutual

/-- A property of all functions holds of the functions in every value. -/
theorem functions_of_forall (h : ∀ decl frame, P decl frame) : (value : Value) → value.Functions P
  | .function decl frame => h decl frame
  | .array elements => functionsAll_of_forall h elements
  | .builtin _ | .int _ | .float _ | .string _ | .bool _ | .void => trivial

theorem functionsAll_of_forall (h : ∀ decl frame, P decl frame) :
    (values : List Value) → FunctionsAll P values
  | [] => trivial
  | value :: values => ⟨functions_of_forall h value, functionsAll_of_forall h values⟩

end

end Value

namespace Scope

variable {V : Type} {scope : Scope V} {name : String}

/-- A scope that is made with globals binds their names, and no others. -/
theorem mem_ofGlobals {globals : List (String × V)} :
    name ∈ (ofGlobals globals).globals ↔ name ∈ globals.map (·.1) := by
  have hfold : ∀ bindings : Bindings V,
      name ∈ globals.foldl (fun bindings entry => bindings.insert entry.1 entry.2) bindings ↔
        name ∈ bindings ∨ name ∈ globals.map (·.1) := by
    induction globals with
    | nil => simp
    | cons entry globals ih =>
        intro bindings
        rw [List.foldl_cons, ih, mem_insert_iff, List.map_cons, List.mem_cons, or_assoc,
          or_left_comm, eq_comm]
  rw [ofGlobals, hfold]
  exact or_iff_right Std.ExtTreeMap.not_mem_empty

/-- What the global frame holds after a name was bound in it. -/
theorem getIn?_insert_global {id : FrameId} {other : String} {value found : V}
    (h : scope.current = global) (hfound : (scope.insert name value).getIn? id other = some found) :
    name = other ∧ found = value ∨ scope.getIn? id other = some found := by
  rw [insert, h] at hfound
  cases id with
  | succ index => exact .inr hfound
  | zero =>
      have hglobals : (scope.globals.insert name value)[other]? = some found := hfound
      rw [getElem?_insert] at hglobals
      split at hglobals
      · next hname => exact .inl ⟨hname, (Option.some.inj hglobals).symm⟩
      · exact .inr hglobals

end Scope

namespace Program

/-- The scope in which the first statement of a program runs: there is only the global frame, and
it holds built-in functions and those of the program. -/
structure Opened (decls : List (FnDecl Stmt)) (scope : Scope Value) : Prop where
  current : scope.current = Scope.global
  held : ∀ id name value, scope.getIn? id name = some value →
    (∃ native, value = .builtin native) ∨
      ∃ decl ∈ decls, decl.name = name ∧ value = .function decl ⟨0, 0⟩

variable {decls : List (FnDecl Stmt)} {machine : Machine} {program : List Stmt} {name : String}

theorem opened_start (decls : List (FnDecl Stmt)) : Opened decls Machine.start.scope where
  current := rfl
  held id name value h := by
    have hall : Machine.start.scope.All fun value => ∃ native, value = .builtin native := by
      apply Scope.all_ofGlobals
      intro entry hmem
      obtain ⟨builtin, -, rfl⟩ := List.mem_map.mp hmem
      exact ⟨builtin, rfl⟩
    exact .inl (hall id name value h)

theorem Opened.declare (h : Opened decls machine.scope) {decl : FnDecl Stmt}
    (hdecl : decl ∈ decls) : Opened decls (machine.declare decl).scope where
  current := (Scope.kept_insert machine.scope decl.name _).current_eq.trans h.current
  held id name value hvalue := by
    have hhandle : machine.scope.currentHandle = ⟨0, 0⟩ := by
      rw [Scope.currentHandle, h.current]
      rfl
    rcases Scope.getIn?_insert_global h.current hvalue with ⟨hname, rfl⟩ | hold
    · exact .inr ⟨decl, hdecl, hname, by rw [hhandle]⟩
    · exact h.held id name value hold

/-- Declaring functions in the global frame binds their names. -/
theorem mem_globals_declare (h : Opened decls machine.scope) {others : List (FnDecl Stmt)}
    (hothers : ∀ decl ∈ others, decl ∈ decls)
    (hname : name ∈ machine.scope.globals ∨ name ∈ others.map (·.name)) :
    name ∈ (others.foldl Machine.declare machine).scope.globals := by
  induction others generalizing machine with
  | nil => exact hname.elim id fun hnil => nomatch hnil
  | cons decl others ih =>
      apply ih (h.declare (hothers decl List.mem_cons_self)) fun other hmem =>
        hothers other (List.mem_cons_of_mem _ hmem)
      have hinsert : (machine.declare decl).scope.globals =
          machine.scope.globals.insert decl.name (.function decl machine.scope.currentHandle) := by
        rw [Machine.declare, Machine.insert, Scope.insert, h.current]
        rfl
      rw [hinsert, Scope.mem_insert_iff]
      rcases hname with hold | hnew
      · exact .inl (.inr hold)
      · exact (List.mem_cons.mp hnew).imp (fun heq => .inl heq.symm) id

/-- The machine in which the first statement of a program runs. -/
theorem opened_declareFunctions (program : List Stmt) :
    Opened (functions program) (Eval.declareFunctions program .start).scope :=
  List.foldlRecOn (motive := fun machine : Machine => Opened (functions program) machine.scope) _ _
    (opened_start _) fun _ h _ hmem => h.declare hmem

/-- The given names are bound in it. -/
theorem mem_globals_of_given (h : name ∈ given program) :
    name ∈ (Eval.declareFunctions program .start).scope.globals := by
  refine mem_globals_declare (opened_start (functions program)) (fun _ hmem => hmem) ?_
  refine (List.mem_append.mp h).imp (fun hbuiltin => ?_) id
  apply Scope.mem_ofGlobals.mpr
  rwa [List.map_map]

theorem Opened.counted {scope : Scope Value} (h : Opened decls scope) : scope.Counted := by
  intro index serial hserial
  have hbound := (Array.getElem?_eq_some_iff.mp hserial).1
  rw [Scope.size_serials, h.current] at hbound
  exact absurd hbound (Nat.not_lt_zero _)

theorem Opened.straight {scope : Scope Value} (h : Opened decls scope) : scope.Straight := by
  intro index frame hframe
  have hsize : scope.frames.size = 0 := h.current
  rw [Array.eq_empty_of_size_eq_zero hsize] at hframe
  simp at hframe

end Program

/-! ### Programs that cover a name -/

namespace Account

variable {program : List Stmt} {name : String} {names : List String} {host : Host} {fuel : Nat}

/-- The scope in which a program starts is sound if the functions of the program may be called. -/
theorem sound_of_opened {account : Account} {decls : List (FnDecl Stmt)} {scope : Scope Value}
    (h : Program.Opened decls scope) (hfits : account.fits scope)
    (hfunctions : ∀ decl ∈ decls, account.visible decl.name →
      account.function scope decl ⟨0, 0⟩) : account.Sound scope where
  fits := hfits
  values id name value hvisible hvalue := by
    rcases h.held id name value hvalue with ⟨native, rfl⟩ | ⟨decl, hdecl, rfl, rfl⟩
    · exact trivial
    · exact hfunctions decl hdecl hvisible

/-- Running the statements at the top, if all names may be mentioned and all functions declared. -/
theorem ensures_topLevel {account : Account} {bound : Bool}
    (hcovers : Program.coversTop account.name bound program = true)
    (hknows : ∀ scope, account.Sound scope → account.Knows bound scope)
    (hadmits : ∀ stmt, account.Admits True stmt) :
    Eval.Ensures (fun machine => account.Sound machine.scope)
      (Eval.topLevel host (Eval.callWithin host fuel) fuel program)
      (fun _ machine => account.Sound machine.scope) fun halt _ => account.Permits halt :=
  (Keeps.ensures fun scope hsound => keeps_topLevel (answers_callWithin host fuel) fuel program
    (fun _ => hcovers) (hknows scope hsound) hadmits).imp fun _ _ h => h.1

/-- A run complains about the name only if the statements at its top do, or if they do not lead to
a scope that is sound for an account of the name. -/
theorem ensures_program {account : Account} {before : Scope Value → Prop}
    (hstart : before (Eval.declareFunctions program .start).scope)
    (hstmts : Eval.Ensures (fun machine => before machine.scope)
      (Eval.topLevel host (Eval.callWithin host fuel) fuel program)
      (fun _ machine => account.Sound machine.scope) fun halt _ => account.Permits halt)
    (hvisible : account.visible "main") :
    Eval.Ensures (· = Machine.start) (Eval.program host fuel program)
      (fun _ _ => True) fun halt _ => account.Permits halt := by
  have hdeclare : Eval.Ensures (· = Machine.start) (Eval.change (Eval.declareFunctions program))
      (fun _ machine => before machine.scope) fun halt _ => account.Permits halt := by
    rintro _ rfl
    exact hstart
  have hmain := ensures_callMain (answers_callWithin host fuel) hvisible
  exact hdeclare.bind fun _ => hstmts.bind fun _ => hmain.bind fun _ =>
    (Eval.Ensures.flush fun _ _ _ => permits_of_isUnbound rfl).imp fun _ _ _ => trivial

/-! #### Names that are bound in the global frame -/

theorem knows_global {scope : Scope Value} (h : (global name).Sound scope) :
    (global name).Knows true scope := fun _ _ =>
  h.fits.1.isSome_get?_iff.mpr (h.fits.1.reaches_global h.fits.2 _ (Nat.le_refl _))

theorem ensures_topLevel_global :
    Eval.Ensures (fun machine => (global name).Sound machine.scope)
      (Eval.topLevel host (Eval.callWithin host fuel) fuel program)
      (fun _ machine => (global name).Sound machine.scope)
      fun halt _ => (global name).Permits halt :=
  ensures_topLevel (Program.coversTop_true name program) (fun _ => knows_global)
    (admits_of_unlimited (fun _ => trivial) fun _ => trivial)

theorem ensures_program_given (h : name ∈ Program.given program) :
    Eval.Ensures (· = Machine.start) (Eval.program host fuel program) (fun _ _ => True)
      fun halt _ => (global name).Permits halt := by
  have hopened := Program.opened_declareFunctions program
  have hsound : (global name).Sound (Eval.declareFunctions program .start).scope :=
    sound_of_opened hopened ⟨hopened.straight, Program.mem_globals_of_given h⟩
      fun _ _ _ => trivial
  exact ensures_program hsound ensures_topLevel_global trivial

/-! #### Names that the text covers -/

theorem ensures_program_covered
    (hfunctions : ∀ decl ∈ Program.functions program, decl.covers name false = true)
    (htop : Program.coversTop name false program = true) :
    Eval.Ensures (· = Machine.start) (Eval.program host fuel program) (fun _ _ => True)
      fun halt _ => (covered name).Permits halt := by
  have hopened := Program.opened_declareFunctions program
  have hsound : (covered name).Sound (Eval.declareFunctions program .start).scope := by
    refine sound_of_opened hopened ⟨hopened.straight, hopened.counted⟩ fun decl hdecl _ => ?_
    refine ⟨Nat.zero_le _, fun _ _ => ⟨false, hfunctions decl hdecl, fun hfalse => ?_⟩⟩
    cases hfalse
  exact ensures_program hsound (ensures_topLevel htop (fun _ _ => knows_false)
    (admits_of_unlimited (fun _ => trivial) fun _ => trivial)) trivial

/-! #### Names that are bound before any function is mentioned -/

theorem admits_of_avoids {stmt : Stmt} (h : Program.avoids names stmt = true) :
    ∀ part ∈ stmt.parts, (opening name names).Admits True part := by
  intro part hpart
  have hself := List.all_eq_true.mp h part hpart
  rw [Bool.and_eq_true] at hself
  refine ⟨fun expr hexpr other hother => ?_, ?_, fun _ => trivial⟩
  · have hnot := List.all_eq_true.mp (List.all_eq_true.mp hself.2 expr hexpr) other hother
    show other ∉ names
    simpa using hnot
  · rintro decl rfl
    cases hself.1

/-- As soon as the name is bound in the global frame, nothing else needs to be known. -/
theorem global_of_opening {scope : Scope Value} (h : (opening name names).Sound scope)
    (hknows : (opening name names).Knows true scope) : (global name).Sound scope := by
  obtain ⟨globals, frames, pushed⟩ := scope
  obtain rfl : frames = #[] := Array.eq_empty_of_size_eq_zero h.fits
  have hsome := hknows trivial rfl
  rw [Scope.get?_global] at hsome
  refine ⟨⟨fun index frame hframe => by simp at hframe, ?_⟩, fun _ _ value _ _ => ?_⟩
  · exact Std.ExtTreeMap.mem_iff_isSome_getElem?.mpr hsome
  · exact Value.functions_of_forall (fun _ _ => trivial) value

theorem ensures_topLevel_opening (h : Program.bindsEarly name names program = true) :
    Eval.Ensures (fun machine => (opening name names).Sound machine.scope)
      (Eval.topLevel host (Eval.callWithin host fuel) fuel program)
      (fun _ machine => (global name).Sound machine.scope)
      fun halt _ => (global name).Permits halt := by
  induction program with
  | nil => cases h
  | cons stmt others ih =>
      cases hdecl : stmt.decl? with
      | some decl =>
          obtain rfl := Stmt.eq_function_of_decl? hdecl
          exact ih h
      | none =>
          rw [Program.bindsEarly_cons hdecl, Bool.and_eq_true, Bool.and_eq_true] at h
          obtain ⟨⟨hcovers, havoids⟩, hbinds⟩ := h
          have hstmt : ∀ scope, (opening name names).Sound scope →
              (opening name names).Keeps True scope
                (Eval.stmt host (Eval.callWithin host fuel) fuel stmt)
                ((opening name names).Ends (stmt.binds name)) := fun scope _ =>
            keeps_stmt (answers_callWithin host fuel) fuel stmt false scope (fun _ => hcovers)
              knows_false (admits_of_avoids havoids)
          rw [topLevel_cons hdecl]
          refine (Keeps.ensures hstmt).bind fun flow => ?_
          cases flow with
          | returned value => exact Eval.Ensures.fail fun _ _ => permits_of_isUnbound rfl
          | normal =>
              -- Either the name is bound now, or a later statement will bind it.
              cases hnow : stmt.binds name with
              | true =>
                  refine ensures_topLevel_global.assuming fun machine hm => ?_
                  exact global_of_opening hm.1 (hm.2.knows rfl)
              | false =>
                  rw [hnow, Bool.false_or] at hbinds
                  exact (ih hbinds).assuming fun _ hm => hm.1

theorem ensures_program_early
    (h : Program.bindsEarly name ((Program.functions program).map (·.name)) program = true) :
    Eval.Ensures (· = Machine.start) (Eval.program host fuel program) (fun _ _ => True)
      fun halt _ => (global name).Permits halt := by
  have hopened := Program.opened_declareFunctions program
  have hsound : (opening name ((Program.functions program).map (·.name))).Sound
      (Eval.declareFunctions program .start).scope :=
    sound_of_opened hopened hopened.current fun decl hdecl hvisible =>
      hvisible (List.mem_map_of_mem hdecl)
  exact ensures_program hsound (ensures_topLevel_opening h) trivial

end Account

/-- A run of a program that covers a name never stops with a complaint about it. -/
theorem Program.ensures_of_covers {program : List Stmt} {name : String}
    (h : Program.covers name program = true) (host : Host) (fuel : Nat) :
    Eval.Ensures (· = Machine.start) (Eval.program host fuel program) (fun _ _ => True)
      fun halt _ => ∀ use : Use, halt ≠ .fault (use.complaint name) := by
  rw [covers, Bool.or_eq_true, Bool.or_eq_true, Bool.and_eq_true, List.all_eq_true] at h
  rcases h with (hgiven | ⟨hfunctions, htop⟩) | hearly
  · exact (Account.ensures_program_given (List.contains_iff_mem.mp hgiven)).weaken (fun _ h => h)
      (fun _ _ h => h) fun _ _ hpermits => hpermits trivial
  · exact (Account.ensures_program_covered hfunctions htop).weaken (fun _ h => h)
      (fun _ _ h => h) fun _ _ hpermits => hpermits trivial
  · exact (Account.ensures_program_early hearly).weaken (fun _ h => h)
      (fun _ _ h => h) fun _ _ hpermits => hpermits trivial

end Quill
