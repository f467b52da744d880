import Quill.Proofs.Typing.State

/-!
# Running typed bodies

The trees of expressions and statements are gone through once, with the typing of the function that
is running: an expression has a value of its type, and a statement that is in order keeps the
machine in agreement with the typing.  That the calls on the way do what they should is assumed
here, in the form in which the induction on the depth of calls will supply it.
-/

namespace Quill

/-- The reason to stop is no fault, or one that depends on the values. -/
def Halt.OfValues (halt : Halt) : Prop :=
  ∀ fault, halt = .fault fault → fault.dependsOnValues = true

theorem Halt.ofValues_fault {fault : Fault} (h : fault.dependsOnValues = true) :
    (Halt.fault fault).OfValues := by
  intro other heq
  obtain rfl := Halt.fault.inj heq
  exact h

theorem Halt.ofValues_outOfFuel : Halt.outOfFuel.OfValues := by
  intro fault heq
  cases heq

/-- The values have the types of a list, one by one, and are sound. -/
structure Value.SoundAll (known : FnDecl Stmt → Prop) (types : List Ty) (values : List Value) :
    Prop where
  typed : haveTypes values types = true
  functions : ∀ value ∈ values, value.Functions fun decl frame => known decl ∧ frame = .top

theorem Value.SoundAll.of_forall {known : FnDecl Stmt → Prop} {types : List Ty}
    {values : List Value} {type : Ty} (h : SoundAll known types values)
    (htypes : ∀ other ∈ types, other = type) : ∀ value ∈ values, value.Sound known type := by
  obtain ⟨htyped, hfunctions⟩ := h
  intro value hmem
  refine ⟨?_, hfunctions value hmem⟩
  induction values generalizing types with
  | nil => exact absurd hmem List.not_mem_nil
  | cons first values ih =>
      cases types with
      | nil => exact Bool.noConfusion htyped
      | cons other types =>
          simp only [haveTypes, Bool.and_eq_true] at htyped
          rcases List.mem_cons.mp hmem with rfl | hmem
          · rw [← htypes other List.mem_cons_self]
            exact htyped.1
          · exact ih (fun other hother => htypes other (List.mem_cons_of_mem _ hother)) htyped.2
              (fun other hother => hfunctions other (List.mem_cons_of_mem _ hother)) hmem

/-- Calls of known functions with arguments of the right types give results of the right types, and
leave the frames as they were. -/
def Answers (known : FnDecl Stmt → Prop) (globals : Bindings Ty) (invoke : Invoke) : Prop :=
  ∀ decl arguments frames, known decl →
    Value.SoundAll known (decl.parameters.map (·.type)) arguments →
    Eval.Ensures
      (fun machine => GlobalsFit known globals machine.scope.globals ∧
        machine.scope.frames = frames)
      (invoke decl .top arguments)
      (fun value machine => (GlobalsFit known globals machine.scope.globals ∧
        machine.scope.frames = frames) ∧ value.Sound known decl.returnType)
      (fun halt machine => halt.OfValues ∧ machine.scope.frames = frames)

namespace Setting

variable {setting : Setting} {bound : List String} {host : Host} {invoke : Invoke} {α β : Type}

/-- What is left when a body stops. -/
def Stops (setting : Setting) (halt : Halt) (machine : Machine) : Prop :=
  halt.OfValues ∧ ∃ frame, machine.scope.frames = setting.below.push frame

theorem Holds.stops {halt : Halt} {machine : Machine} (h : setting.Holds bound machine)
    (hhalt : halt.OfValues) : setting.Stops halt machine := by
  obtain ⟨-, frame, hframes, -⟩ := h
  exact ⟨hhalt, frame, hframes⟩

/-- The action keeps the machine in the setting, and gives results with a property. -/
def Keeps (setting : Setting) (bound : List String) (action : Eval α) (result : α → Prop) : Prop :=
  Eval.Ensures (setting.Holds bound) action
    (fun value machine => setting.Holds bound machine ∧ result value) setting.Stops

namespace Keeps

theorem pure {result : α → Prop} {value : α} (h : result value) :
    setting.Keeps bound (Pure.pure value) result :=
  Eval.Ensures.pure fun _ hm => ⟨hm, h⟩

theorem bind {action : Eval α} {next : α → Eval β} {mid : α → Prop} {result : β → Prop}
    (hfirst : setting.Keeps bound action mid)
    (hnext : ∀ value, mid value → setting.Keeps bound (next value) result) :
    setting.Keeps bound (action >>= next) result :=
  Eval.Ensures.bind hfirst fun value machine h => hnext value h.2 machine h.1

theorem ofExcept {type : Ty} {found : Except Fault Value}
    (h : Value.Delivers setting.known type found) :
    setting.Keeps bound (Eval.ofExcept found) (·.Sound setting.known type) := by
  refine Eval.Ensures.ofExcept (fun value machine hok hm => ⟨hm, ?_⟩)
    (fun fault machine herror hm => hm.stops (Halt.ofValues_fault ?_))
  · rw [hok] at h
    exact h
  · rw [herror] at h
    exact h

theorem read {location : Location} {type : Ty}
    (h : location.Typed setting.known (setting.Shows bound) type) :
    setting.Keeps bound (Eval.read location) (·.Sound setting.known type) := by
  refine Eval.Ensures.read (fun value machine hok hm => ⟨hm, ?_⟩)
    (fun fault machine herror hm => hm.stops (Halt.ofValues_fault ?_))
  · have hread := Location.delivers_read (fun _ _ hshows => hm.get hshows) h
    rw [hok] at hread
    exact hread
  · have hread := Location.delivers_read (fun _ _ hshows => hm.get hshows) h
    rw [herror] at hread
    exact hread

theorem write {location : Location} {type : Ty} {value : Value}
    (h : location.Typed setting.known (setting.Shows bound) type)
    (hstored : location.isStored = true) (hvalue : value.Sound setting.known type) :
    setting.Keeps bound (Eval.write location value) fun _ => True := by
  have hlands (machine : Machine) (hm : setting.Holds bound machine) :
      Location.Lands (fun scope => setting.Holds bound { machine with scope := scope })
        (location.write machine.scope value) :=
    Location.lands_write (fun _ _ hshows => hm.get hshows)
      (fun _ _ _ hshows hsound => hm.update hshows hsound) h hstored hvalue
  refine Eval.Ensures.write (fun scope machine hok hm => ⟨?_, trivial⟩)
    (fun fault machine herror hm => hm.stops (Halt.ofValues_fault ?_))
  · have hwrite := hlands machine hm
    rw [hok] at hwrite
    exact hwrite
  · have hwrite := hlands machine hm
    rw [herror] at hwrite
    exact hwrite

theorem value {locate : Eval Location} {type : Ty}
    (h : setting.Keeps bound locate (·.Typed setting.known (setting.Shows bound) type)) :
    setting.Keeps bound (Eval.value locate) (·.Sound setting.known type) :=
  bind h fun _ hlocation => read hlocation

theorem truth {action : Eval Value} (h : setting.Keeps bound action (·.Sound setting.known .bool)) :
    setting.Keeps bound (Eval.truth action) fun _ => True := by
  refine Eval.Ensures.truth h (fun _ _ hm => ⟨hm.1, trivial⟩) fun found _ hm hother => ?_
  obtain ⟨flag, rfl⟩ := Value.hasType_bool hm.2.typed
  exact absurd rfl (hother flag)

theorem integer {action : Eval Value}
    (h : setting.Keeps bound action (·.Sound setting.known .int)) :
    setting.Keeps bound (Eval.integer action) fun _ => True := by
  refine Eval.Ensures.integer h (fun _ _ hm => ⟨hm.1, trivial⟩) fun found _ hm hother => ?_
  obtain ⟨number, rfl⟩ := Value.hasType_int hm.2.typed
  exact absurd rfl (hother number)

/-- A name that may be mentioned has a value of its type. -/
theorem lookup {name : String} {type : Ty} (h : setting.Shows bound name type) :
    setting.Keeps bound (Eval.lookup name) fun found =>
      ∃ value, found = some value ∧ value.Sound setting.known type :=
  Eval.Ensures.lookup fun _ hm => ⟨hm, hm.get h⟩

/-- A built-in function that takes its arguments gives a value of its result type. -/
theorem native {native : Builtin} {arguments : List Value}
    (haccepts : native.accepts arguments = true) :
    setting.Keeps bound (Eval.interact (native.run host arguments))
      (·.Sound setting.known native.result) := by
  have hrun := native.run_ensures host arguments
  refine Eval.Ensures.interact (fun machine value console hok hm => ?_)
    (fun machine fault console herror hm => ?_)
  · have hvalue := hrun machine.console
    rw [hok] at hvalue
    exact ⟨hm.exchange console, hvalue, Value.hereditary_functions.ofBuiltin native hvalue⟩
  · have hfault := hrun machine.console
    rw [herror] at hfault
    refine (hm.exchange console).stops (Halt.ofValues_fault ?_)
    exact Builtin.dependsOnValues_of_mayRaise haccepts hfault

/-- A call of a known function. -/
theorem call (hinvoke : Answers setting.known setting.globals invoke) {decl : FnDecl Stmt}
    {arguments : List Value} (hdecl : setting.known decl)
    (harguments : Value.SoundAll setting.known (decl.parameters.map (·.type)) arguments) :
    setting.Keeps bound (invoke decl .top arguments) (·.Sound setting.known decl.returnType) := by
  intro machine hm
  obtain ⟨hglobals, frame, hframes, hparent, hfits, hbound⟩ := hm
  -- The call leaves all frames as they were, so what is known of the innermost one still holds.
  refine (hinvoke decl arguments machine.scope.frames hdecl harguments).weaken (fun _ h => h) ?_ ?_
    machine ⟨hglobals, rfl⟩
  · rintro value final ⟨⟨hglobals, hsame⟩, hsound⟩
    exact ⟨⟨hglobals, frame, hsame.trans hframes, hparent, hfits, hbound⟩, hsound⟩
  · rintro halt final ⟨hhalt, hsame⟩
    exact ⟨hhalt, frame, hsame.trans hframes⟩

/-- Calling a value of function type with arguments of the right types. -/
theorem apply (hinvoke : Answers setting.known setting.globals invoke) {name : String}
    {callee : Value} {arguments : List Value} {types : List Ty} {result : Ty}
    (hcallee : callee.Sound setting.known (.function types result) ∨
      callee.Sound setting.known (.variadic result))
    (harguments : Value.SoundAll setting.known types arguments) :
    setting.Keeps bound (Eval.apply host invoke name callee arguments)
      (·.Sound setting.known result) := by
  rcases hcallee with hcallee | hcallee
  -- A value of function type is a built-in function or a declared one.
  · rcases Value.hasType_function hcallee.typed with
      ⟨builtin, rfl, hsignature⟩ | ⟨decl, frame, rfl, hparameters, hresult⟩
    · have hresult : builtin.result = result := by simp [Builtin.result, hsignature]
      have haccepts : builtin.accepts arguments = true := by
        simp [Builtin.accepts, hsignature, harguments.typed]
      rw [← hresult]
      exact Keeps.native haccepts
    · obtain ⟨hknown, rfl⟩ := hcallee.functions
      rw [← hresult]
      exact Keeps.call hinvoke hknown (hparameters ▸ harguments)
  · obtain ⟨builtin, rfl, hsignature⟩ := Value.hasType_variadic hcallee.typed
    have hresult : builtin.result = result := by simp [Builtin.result, hsignature]
    have haccepts : builtin.accepts arguments = true := by simp [Builtin.accepts, hsignature]
    rw [← hresult]
    exact Keeps.native haccepts

end Keeps

/-! ### Expressions -/

/-- The type of an expression under the typing of the setting. -/
def infer (setting : Setting) (expr : Expr) : Typed :=
  Quill.infer (bodyScope setting.globals setting.locals .void 0 0) expr

/-- The expression may be evaluated: no problem is found in it, and the local names that it mentions
are bound. -/
structure Admits (setting : Setting) (bound : List String) (expr : Expr) : Prop where
  clean : (setting.infer expr).problems = []
  bound : ∀ name ∈ expr.mentions, name ∈ setting.locals → name ∈ bound

/-- What is known of the location of an expression. -/
def Locates (setting : Setting) (bound : List String) (expr : Expr) (location : Location) : Prop :=
  location.Typed setting.known (setting.Shows bound) (setting.infer expr).type ∧
    (expr.isAssignable = true → location.isStored = true)

/-- The value of an expression has the type of its location. -/
theorem Keeps.valueOf {locate : Eval Location} {expr : Expr}
    (h : setting.Keeps bound locate (setting.Locates bound expr)) :
    setting.Keeps bound (Eval.value locate) (·.Sound setting.known (setting.infer expr).type) :=
  Keeps.value (h.imp fun _ _ hm => ⟨hm.1, hm.2.1⟩)

theorem shows_of_get? {name : String} {type : Ty}
    (hget : (bodyScope setting.globals setting.locals .void 0 0).get? name = some type)
    (hbound : name ∈ setting.locals → name ∈ bound) : setting.Shows bound name type := by
  rw [bodyScope_get?] at hget
  by_cases hlocal : name ∈ setting.locals
  · have htype := Std.ExtTreeMap.getElem?_eq_some_getElem hlocal
    rw [htype, Option.some_or] at hget
    exact .inl ⟨hbound hlocal, htype.trans hget⟩
  · rw [Std.ExtTreeMap.getElem?_eq_none hlocal, Option.none_or] at hget
    exact .inr ⟨hlocal, hget⟩

/-- A name of function type has a value that can be called. -/
theorem keeps_lookup_callee {callee : String} {types : List Ty} {result : Ty}
    (h : (bodyScope setting.globals setting.locals .void 0 0).get? callee
        = some (.function types result) ∨
      (bodyScope setting.globals setting.locals .void 0 0).get? callee = some (.variadic result))
    (hbound : callee ∈ setting.locals → callee ∈ bound) :
    setting.Keeps bound (Eval.lookup callee) fun found => ∃ value, found = some value ∧
      (value.Sound setting.known (.function types result) ∨
        value.Sound setting.known (.variadic result)) := by
  rcases h with hget | hget
  · exact (Keeps.lookup (shows_of_get? hget hbound)).imp fun _ _ ⟨hm, value, hvalue, hsound⟩ =>
      ⟨hm, value, hvalue, .inl hsound⟩
  · exact (Keeps.lookup (shows_of_get? hget hbound)).imp fun _ _ ⟨hm, value, hvalue, hsound⟩ =>
      ⟨hm, value, hvalue, .inr hsound⟩

mutual

/-- The location of an expression without problems has the type of the expression. -/
theorem keeps_locate (hinvoke : Answers setting.known setting.globals invoke) : (expr : Expr) →
    setting.Admits bound expr →
    setting.Keeps bound (Eval.locate host invoke expr) (setting.Locates bound expr)
  | .int _ _, _ | .float _ _, _ | .string _ _, _ | .bool _ _, _ =>
    Keeps.pure ⟨Value.sound_of_isPlain rfl rfl, by simp [Expr.isAssignable]⟩
  | .name ident span, ⟨hclean, hbound⟩ => by
      refine Keeps.pure ⟨?_, fun _ => rfl⟩
      rw [infer, Quill.infer] at hclean ⊢
      cases hget : (bodyScope setting.globals setting.locals .void 0 0).get? ident with
      | none =>
          rw [hget] at hclean
          exact absurd hclean (List.cons_ne_nil _ _)
      | some type => exact shows_of_get? hget (hbound ident (by simp))
  | .array elements span, ⟨hclean, hbound⟩ => by
      rw [infer, Quill.infer, inferAll_eq_map] at hclean
      obtain ⟨element, htype, helements⟩ := Typed.array_clean hclean
      have hvalues := keeps_evaluateAll hinvoke elements fun expr hmem =>
        ⟨(helements _ (List.mem_map_of_mem hmem)).1,
          fun name hname => hbound name (Expr.mem_mentionsAll.mpr ⟨expr, hmem, hname⟩)⟩
      refine Keeps.bind hvalues fun values hsound => ?_
      refine Keeps.pure ⟨?_, by simp [Expr.isAssignable]⟩
      -- No problem means that all elements have the type of the first.
      have hall : ∀ value ∈ values, value.Sound setting.known element := by
        refine hsound.of_forall fun type hmem => ?_
        obtain ⟨expr, hexpr, rfl⟩ := List.mem_map.mp hmem
        exact (helements _ (List.mem_map_of_mem hexpr)).2
      rw [infer, Quill.infer, inferAll_eq_map, htype]
      exact Value.sound_array hall
  | .subscript base index span, ⟨hclean, hbound⟩ => by
      rw [infer, Quill.infer] at hclean
      obtain ⟨hbase, hindex, hint, hcontains⟩ := Typed.subscript_clean hclean
      have hplace := keeps_locate hinvoke index ⟨hindex, fun name hname =>
        hbound name (by simp [hname])⟩
      refine Keeps.bind (keeps_locate hinvoke base ⟨hbase, fun name hname =>
        hbound name (by simp [hname])⟩) fun location hlocation => ?_
      have hnumber : setting.Keeps bound (Eval.value (Eval.locate host invoke index))
          (·.Sound setting.known .int) :=
        hint ▸ Keeps.valueOf hplace
      refine Keeps.bind (Keeps.integer hnumber) fun place _ => ?_
      -- The element is stored if its base is.
      refine Keeps.pure ⟨⟨(setting.infer base).type, ?_, hlocation.1⟩, hlocation.2⟩
      rw [infer, infer, Quill.infer]
      exact hcontains
  | .call callee calleeSpan arguments span, ⟨hclean, hbound⟩ => by
      rw [infer, Quill.infer, inferAll_eq_map] at hclean
      obtain ⟨harguments, hcallee⟩ := Typed.call_clean hclean
      rw [List.map_map] at hcallee
      have hvalues := keeps_evaluateAll hinvoke arguments fun expr hmem =>
        ⟨harguments _ (List.mem_map_of_mem hmem), fun name hname =>
          hbound name (by simp [Expr.mem_mentionsAll.mpr ⟨expr, hmem, hname⟩])⟩
      have hlookup := keeps_lookup_callee hcallee (hbound callee (by simp))
      refine Keeps.bind hlookup fun found hfound => ?_
      obtain ⟨function, rfl, hfunction⟩ := hfound
      refine Keeps.bind hvalues fun values hsound => ?_
      refine Keeps.bind (Keeps.apply hinvoke hfunction hsound) fun result hresult => ?_
      refine Keeps.pure ⟨?_, by simp [Expr.isAssignable]⟩
      rw [infer, Quill.infer, inferAll_eq_map]
      exact hresult
  | .binary operator left right span, ⟨hclean, hbound⟩ => by
      rw [infer, Quill.infer] at hclean
      obtain ⟨hleft, hright, htakes⟩ := Typed.binary_clean hclean
      have hfirst := keeps_locate hinvoke left ⟨hleft, fun name hname =>
        hbound name (by simp [hname])⟩
      have hsecond := keeps_locate hinvoke right ⟨hright, fun name hname =>
        hbound name (by simp [hname])⟩
      refine Keeps.bind (Keeps.valueOf hfirst) fun a ha => ?_
      refine Keeps.bind (Keeps.valueOf hsecond) fun b hb => ?_
      refine Keeps.bind (Keeps.ofExcept (Value.delivers_apply htakes ha hb))
        fun result hresult => ?_
      refine Keeps.pure ⟨?_, by simp [Expr.isAssignable]⟩
      rw [infer, Quill.infer]
      exact hresult
  | .assign target source span, ⟨hclean, hbound⟩ => by
      obtain ⟨hassignable, htarget, hsource, htypes⟩ := infer_assign_clean hclean
      have hvalue := keeps_locate hinvoke source ⟨hsource, fun name hname =>
        hbound name (by simp [hname])⟩
      refine Keeps.bind (keeps_locate hinvoke target ⟨htarget, fun name hname =>
        hbound name (by simp [hname])⟩) fun location hlocation => ?_
      refine Keeps.bind (Keeps.valueOf hvalue) fun result hresult => ?_
      have hwrite := Keeps.write hlocation.1 (hlocation.2 hassignable) (htypes ▸ hresult)
      refine Keeps.bind hwrite fun _ _ => Keeps.pure ⟨?_, by simp [Expr.isAssignable]⟩
      rw [infer, Quill.infer, if_pos hassignable]
      exact Value.sound_of_isPlain rfl rfl

/-- Expressions without problems have values of their types. -/
theorem keeps_evaluateAll (hinvoke : Answers setting.known setting.globals invoke) :
    (exprs : List Expr) → (∀ expr ∈ exprs, setting.Admits bound expr) →
    setting.Keeps bound (Eval.evaluateAll host invoke exprs)
      (Value.SoundAll setting.known (exprs.map fun expr => (setting.infer expr).type))
  | [], _ => Keeps.pure ⟨rfl, by simp⟩
  | expr :: exprs, hexprs => by
      have hvalue := keeps_locate hinvoke expr (hexprs expr List.mem_cons_self)
      refine Keeps.bind (Keeps.valueOf hvalue) fun first hfirst => ?_
      refine Keeps.bind (keeps_evaluateAll hinvoke exprs fun other hmem =>
        hexprs other (List.mem_cons_of_mem _ hmem)) fun others hothers => ?_
      refine Keeps.pure ⟨?_, ?_⟩
      · simp [Value.haveTypes, hfirst.typed, hothers.typed]
      · simpa using ⟨hfirst.functions, hothers.functions⟩

end

/-- The value of an expression has the type of the expression. -/
theorem keeps_evaluate (hinvoke : Answers setting.known setting.globals invoke) {expr : Expr}
    {type : Ty} {names : List String} (htype : expr.HasType setting.globals setting.locals type)
    (hnames : ∀ name ∈ setting.locals, name ∈ names)
    (hscoped : expr.wellScoped names bound = true) :
    setting.Keeps bound (Eval.evaluate host invoke expr) (·.Sound setting.known type) := by
  have hlocate : setting.Keeps bound (Eval.locate host invoke expr) (setting.Locates bound expr) :=
    keeps_locate hinvoke expr ⟨htype.1, fun name hmention hlocal =>
      Expr.wellScoped_iff.mp hscoped name hmention (hnames name hlocal)⟩
  exact htype.2 ▸ Keeps.valueOf hlocate

/-! ### Statements -/

/-- The statements run inside the setting, and what they return is sound. -/
def Runs (setting : Setting) (bound after : List String) (result : Ty) (action : Eval Flow) :
    Prop :=
  Eval.Ensures (setting.Holds bound) action
    (fun flow machine => setting.Holds after machine ∧
      flow.Holds (·.Sound setting.known result)) setting.Stops

namespace Runs

variable {after : List String} {result : Ty}

theorem choose {condition : Eval Bool} {yes no : Eval Flow}
    (hcondition : setting.Keeps bound condition fun _ => True)
    (hyes : setting.Runs bound after result yes) (hno : setting.Runs bound after result no) :
    setting.Runs bound after result (Eval.choose condition yes no) :=
  Eval.Ensures.choose (hcondition.imp fun _ _ hm => hm.1) hyes hno

theorem andThen {first next : Eval Flow} {middle : List String}
    (hfirst : setting.Runs bound middle result first)
    (hnext : setting.Runs middle after result next) (hafter : ∀ name ∈ after, name ∈ middle) :
    setting.Runs bound after result (Eval.andThen first next) :=
  Eval.Ensures.andThen hfirst (hnext.assuming fun _ hm => hm.1) fun _ _ hm =>
    ⟨hm.1.of_subset hafter, hm.2⟩

end Runs

section Statements

variable {result : Ty} {names : List String}

mutual

/-- A statement that is in order runs inside the setting, and binds the name that it declares. -/
theorem runs_stmt (hinvoke : Answers setting.known setting.globals invoke) (fuel : Nat)
    (hnames : ∀ name ∈ setting.locals, name ∈ names) {bound : List String} : (stmt : Stmt) →
    TypedParts setting.globals result stmt.parts setting.locals →
    stmt.wellScoped names bound = true →
    setting.Runs bound (stmt.bound?.toList ++ bound) result (Eval.stmt host invoke fuel stmt)
  | .function decl, hparts, _ => by
      exact (hparts (.function decl) (by simp [Stmt.parts])).elim
  | .ret value span, hparts, hscoped => by
      have htype := hparts (.ret value span) (by simp [Stmt.parts])
      exact Keeps.bind (keeps_evaluate hinvoke htype hnames hscoped) fun _ hvalue =>
        Keeps.pure hvalue
  | .bind name value span, hparts, hscoped => by
      obtain ⟨type, htype, hlocal⟩ := hparts (.bind name value span) (by simp [Stmt.parts])
      have hvalue : setting.Keeps bound (Eval.evaluate host invoke value)
          (·.Sound setting.known type) := keeps_evaluate hinvoke htype hnames hscoped
      refine Eval.Ensures.bind hvalue fun found => ?_
      have hinsert : Eval.Ensures
          (fun machine => setting.Holds bound machine ∧ found.Sound setting.known type)
          (Eval.change (·.insert name found)) (fun _ => setting.Holds (name :: bound))
          setting.Stops :=
        Eval.Ensures.change fun machine hm => hm.1.insert hlocal hm.2
      exact hinsert.bind fun _ => Eval.Ensures.pure fun machine hm => ⟨hm, trivial⟩
  | .expr value, hparts, hscoped => by
      obtain ⟨type, htype⟩ := hparts (.expr value) (by simp [Stmt.parts])
      exact Keeps.bind (keeps_evaluate hinvoke htype hnames hscoped) fun _ _ => Keeps.pure trivial
  | .branch ⟨condition, body, span⟩ others otherwise, hparts, hscoped => by
      obtain ⟨hcondition, hconditions⟩ := hparts (.branch ⟨condition, body, span⟩ others otherwise)
        (by simp [Stmt.parts])
      simp only [TypedParts, Stmt.parts, List.mem_cons, List.mem_append, forall_eq_or_imp] at hparts
      simp only [Stmt.wellScoped, Bool.and_eq_true] at hscoped
      obtain ⟨⟨⟨hfirst, hbody⟩, hothers⟩, hlast⟩ := hscoped
      have hend := runs_lastBlock hinvoke fuel hnames otherwise
        (fun part h => hparts.2 part (.inr h)) hlast
      exact Runs.choose (Keeps.truth (keeps_evaluate hinvoke hcondition hnames hfirst))
        (runs_block hinvoke fuel hnames body (fun part h => hparts.2 part (.inl (.inl h))) hbody)
        (runs_arms hinvoke fuel hnames others hconditions
          (fun part h => hparts.2 part (.inl (.inr h))) hothers hend)
  | .loop condition body span, hparts, hscoped => by
      have hcondition := hparts (.loop condition body span) (by simp [Stmt.parts])
      simp only [Stmt.wellScoped, Bool.and_eq_true] at hscoped
      have hbody := runs_block hinvoke fuel hnames body
        (fun part h => hparts part (List.mem_cons_of_mem _ h)) hscoped.2
      have htruth : setting.Keeps bound (Eval.truth (Eval.evaluate host invoke condition)) _ :=
        Keeps.truth (keeps_evaluate hinvoke hcondition hnames hscoped.1)
      exact Eval.Ensures.repeatWhile (htruth.imp fun _ _ hm => hm.1) hbody (fun _ hm => hm.1)
        (fun _ hm => ⟨hm, trivial⟩) (fun _ hm => hm.stops Halt.ofValues_outOfFuel) fuel
  | .range counter lower upper body span, hparts, hscoped => by
      obtain ⟨hlower, hupper, hcounter⟩ := hparts (.range counter lower upper body span)
        (by simp [Stmt.parts])
      simp only [Stmt.wellScoped, Bool.and_eq_true] at hscoped
      have hbody := runs_block hinvoke fuel hnames body
        (fun part h => hparts part (List.mem_cons_of_mem _ h)) hscoped.2
      refine Keeps.bind (Keeps.integer (keeps_evaluate hinvoke hlower hnames hscoped.1.1))
        fun first _ => ?_
      refine Keeps.bind (Keeps.integer (keeps_evaluate hinvoke hupper hnames hscoped.1.2))
        fun last _ => ?_
      -- Inside a round the counter is bound; between the rounds this is forgotten again.
      refine Eval.Ensures.countFrom (fun number => ?_) (fun _ hm => hm.1)
        (fun _ hm => ⟨hm, trivial⟩) _ _
      have hinsert : Eval.Ensures (setting.Holds bound)
          (Eval.change (·.insert counter (.int number)))
          (fun _ => setting.Holds (counter :: bound)) setting.Stops :=
        Eval.Ensures.change fun machine hm =>
          hm.insert hcounter (Value.sound_of_isPlain rfl rfl)
      exact hinsert.bind fun _ => hbody.imp fun _ _ hm =>
        ⟨hm.1.of_subset fun name hname => List.mem_cons_of_mem _ hname, hm.2⟩
  | .block inner, hparts, hscoped =>
    runs_block hinvoke fuel hnames inner (fun part h => hparts part (List.mem_cons_of_mem _ h))
      hscoped

theorem runs_arms (hinvoke : Answers setting.known setting.globals invoke) (fuel : Nat)
    (hnames : ∀ name ∈ setting.locals, name ∈ names) {bound : List String} {last : Eval Flow} :
    (arms : List (Arm Stmt)) →
    (∀ arm ∈ arms, arm.condition.HasType setting.globals setting.locals .bool) →
    TypedParts setting.globals result (Stmt.partsOfArms arms) setting.locals →
    Stmt.wellScopedArms names bound arms = true → setting.Runs bound bound result last →
    setting.Runs bound bound result (Eval.arms host invoke fuel arms last)
  | [], _, _, _, hlast => hlast
  | ⟨condition, body, span⟩ :: others, hconditions, hparts, hscoped, hlast => by
      simp only [TypedParts, Stmt.partsOfArms, List.mem_append] at hparts
      simp only [Stmt.wellScopedArms, Bool.and_eq_true] at hscoped
      simp only [List.mem_cons, forall_eq_or_imp] at hconditions
      obtain ⟨⟨hfirst, hbody⟩, hothers⟩ := hscoped
      exact Runs.choose (Keeps.truth (keeps_evaluate hinvoke hconditions.1 hnames hfirst))
        (runs_block hinvoke fuel hnames body (fun part h => hparts part (.inl h)) hbody)
        (runs_arms hinvoke fuel hnames others hconditions.2 (fun part h => hparts part (.inr h))
          hothers hlast)

theorem runs_lastBlock (hinvoke : Answers setting.known setting.globals invoke) (fuel : Nat)
    (hnames : ∀ name ∈ setting.locals, name ∈ names) {bound : List String} :
    (last : Option (Block Stmt)) →
    TypedParts setting.globals result (Stmt.partsOfLast last) setting.locals →
    Stmt.wellScopedLast names bound last = true →
    setting.Runs bound bound result (Eval.lastBlock host invoke fuel last)
  | some inner, hparts, hscoped => runs_block hinvoke fuel hnames inner hparts hscoped
  | none, _, _ => Keeps.pure trivial

theorem runs_block (hinvoke : Answers setting.known setting.globals invoke) (fuel : Nat)
    (hnames : ∀ name ∈ setting.locals, name ∈ names) {bound : List String} : (block : Block Stmt) →
    TypedParts setting.globals result (Stmt.partsOfBlock block) setting.locals →
    Stmt.wellScopedBlock names bound block = true →
    setting.Runs bound bound result (Eval.block host invoke fuel block)
  | ⟨body, _⟩, hparts, hscoped => runs_stmts hinvoke fuel hnames body hparts hscoped

theorem runs_stmts (hinvoke : Answers setting.known setting.globals invoke) (fuel : Nat)
    (hnames : ∀ name ∈ setting.locals, name ∈ names) {bound : List String} : (stmts : List Stmt) →
    TypedParts setting.globals result (Stmt.partsOfAll stmts) setting.locals →
    Stmt.wellScopedAll names bound stmts = true →
    setting.Runs bound bound result (Eval.stmts host invoke fuel stmts)
  | [], _, _ => Keeps.pure trivial
  | stmt :: stmts, hparts, hscoped => by
      simp only [TypedParts, Stmt.partsOfAll, List.mem_append] at hparts
      simp only [Stmt.wellScopedAll, Bool.and_eq_true] at hscoped
      have hfirst := runs_stmt hinvoke fuel hnames stmt (fun part h => hparts part (.inl h))
        hscoped.1
      have hothers := runs_stmts hinvoke fuel hnames stmts (fun part h => hparts part (.inr h))
        hscoped.2
      -- What the statements of a list declare is forgotten at its end.
      have hbound : ∀ name ∈ bound, name ∈ stmt.bound?.toList ++ bound := fun name hname =>
        List.mem_append_right _ hname
      refine (Runs.andThen hfirst hothers fun _ hname => hname).imp fun _ _ hm => ?_
      exact ⟨hm.1.of_subset hbound, hm.2⟩

end

end Statements

/-- Binding arguments of the right types to the parameters. -/
theorem holds_bindArguments {parameters : List Parameter} {arguments : List Value}
    {machine : Machine} (h : setting.Holds bound machine)
    (hparameters : ∀ parameter ∈ parameters,
      setting.locals[parameter.name]? = some parameter.type)
    (harguments : Value.SoundAll setting.known (parameters.map (·.type)) arguments) :
    setting.Holds (parameters.map (·.name) ++ bound)
      (Eval.bindArguments parameters arguments machine) := by
  induction parameters generalizing arguments machine bound with
  | nil => exact h
  | cons parameter parameters ih =>
      obtain ⟨htyped, hfunctions⟩ := harguments
      cases arguments with
      | nil => exact Bool.noConfusion htyped
      | cons argument arguments =>
          simp only [List.map_cons, Value.haveTypes, Bool.and_eq_true] at htyped
          simp only [List.mem_cons, forall_eq_or_imp] at hparameters hfunctions
          have hinsert := h.insert hparameters.1 ⟨htyped.1, hfunctions.1⟩
          refine (ih hinsert hparameters.2 ⟨htyped.2, hfunctions.2⟩).of_subset fun name hname => ?_
          simp only [List.map_cons, List.cons_append, List.mem_cons, List.mem_append] at hname ⊢
          rcases hname with rfl | hname | hname
          · exact .inr (.inl rfl)
          · exact .inl hname
          · exact .inr (.inr hname)

end Setting

end Quill
