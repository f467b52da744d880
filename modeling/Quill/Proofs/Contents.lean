import Quill.Proofs.Frames

/-!
# What a scope holds

A property of functions is carried over to the values made of functions, and from there to all
values that a scope holds.  If the functions that a body declares have it whenever the body's own
function has, then calls keep it: the scope never comes to hold any other function.
-/

namespace Quill

namespace Value

mutual

/-- All functions in the value have the property. -/
def Functions (P : FnDecl Stmt → FrameHandle → Prop) : Value → Prop
  | function decl frame => P decl frame
  | array elements => FunctionsAll P elements
  | builtin _ | int _ | float _ | string _ | bool _ | void => True

/-- All functions in the values have the property. -/
def FunctionsAll (P : FnDecl Stmt → FrameHandle → Prop) : List Value → Prop
  | [] => True
  | value :: values => value.Functions P ∧ FunctionsAll P values

end

variable {P : FnDecl Stmt → FrameHandle → Prop}

theorem functionsAll_iff {values : List Value} :
    FunctionsAll P values ↔ ∀ value ∈ values, value.Functions P := by
  induction values with
  | nil => simp [FunctionsAll]
  | cons value values ih => simp [FunctionsAll, ih]

theorem hereditary_functions : Hereditary (Functions P) where
  plain value h := by
    cases value with
    | builtin native => exact trivial
    | function decl frame => exact Bool.noConfusion h
    | array elements => exact Bool.noConfusion h
    | _ => exact trivial
  array elements := by
    rw [Functions]
    exact functionsAll_iff

end Value

namespace Scope

variable {V : Type} {P : V → Prop} {scope : Scope V}

/-- All values that the scope holds, in whatever frame, have the property. -/
def All (P : V → Prop) (scope : Scope V) : Prop :=
  ∀ id name value, scope.getIn? id name = some value → P value

theorem All.get {name : String} {value : V} (h : scope.All P)
    (hget : scope.get? name = some value) : P value := by
  obtain ⟨id, -, hid⟩ := Option.bind_eq_some_iff.mp hget
  exact h id name value hid

theorem getElem?_insert_some {bindings : Bindings V} {name other : String} {value found : V}
    (h : (bindings.insert name value)[other]? = some found) :
    found = value ∨ bindings[other]? = some found := by
  rw [Std.ExtTreeMap.getElem?_insert] at h
  split at h
  · exact .inl (Option.some.inj h).symm
  · exact .inr h

/-- What a scope holds after a name is bound anew is the new value or was there before. -/
theorem getIn?_insertIn {id other : FrameId} {name asked : String} {value found : V}
    (h : (scope.insertIn id name value).getIn? other asked = some found) :
    found = value ∨ scope.getIn? other asked = some found := by
  cases id with
  | zero =>
      cases other with
      | zero => exact getElem?_insert_some h
      | succ place => exact .inr h
  | succ index =>
      cases other with
      | zero => exact .inr h
      | succ place =>
          simp only [getIn?, bindingsOf, insertIn, Array.getElem?_modify] at h ⊢
          -- Only the frame that is asked may have changed.
          by_cases hplace : index = place
          · subst hplace
            cases hframe : scope.frames[index]? with
            | none => simp [hframe] at h
            | some frame =>
                simp only [hframe, if_true, Option.map_some] at h ⊢
                exact getElem?_insert_some h
          · simp only [if_neg hplace] at h
            exact .inr h

theorem All.insertIn (h : scope.All P) {id : FrameId} {name : String} {value : V}
    (hvalue : P value) : (scope.insertIn id name value).All P := by
  intro other asked found hfound
  rcases getIn?_insertIn hfound with hnew | hold
  · exact hnew ▸ hvalue
  · exact h other asked found hold

theorem All.insert (h : scope.All P) {name : String} {value : V} (hvalue : P value) :
    (scope.insert name value).All P :=
  h.insertIn hvalue

theorem All.update (h : scope.All P) {name : String} {value : V} {updated : Scope V}
    (hvalue : P value) (hupdate : scope.update? name value = some updated) : updated.All P := by
  obtain ⟨id, -, rfl⟩ := Option.map_eq_some_iff.mp hupdate
  exact h.insertIn hvalue

/-- A pushed frame holds nothing yet. -/
theorem All.push (h : scope.All P) (parent : FrameId) (context : Option Ty) :
    (scope.push parent context).All P := by
  intro id name value hvalue
  cases id with
  | zero => exact h 0 name value hvalue
  | succ index =>
      apply h (index + 1) name value
      simp only [getIn?, bindingsOf, Scope.push, Array.getElem?_push] at hvalue ⊢
      by_cases hindex : index = scope.frames.size
      -- The new frame binds no name at all.
      · simp [hindex] at hvalue
      · simpa [hindex] using hvalue

theorem All.pop (h : scope.All P) {outer : Scope V} (hpop : scope.pop = .ok outer) :
    outer.All P := by
  unfold Scope.pop at hpop
  split at hpop
  · cases hpop
  · cases hpop
    intro id name value hvalue
    cases id with
    | zero => exact h 0 name value hvalue
    | succ index =>
        apply h (index + 1) name value
        simp only [getIn?, bindingsOf, Array.getElem?_pop] at hvalue ⊢
        by_cases hindex : index < scope.frames.size - 1
        · simpa [hindex] using hvalue
        · simp [hindex] at hvalue

theorem all_ofGlobals {globals : List (String × V)} (h : ∀ entry ∈ globals, P entry.2) :
    (Scope.ofGlobals globals).All P := by
  have hglobals : ∀ (name : String) value, (ofGlobals globals).globals[name]? = some value →
      P value := by
    -- The globals are bound one after the other, and each binding keeps the property.
    refine List.foldlRecOn (motive := fun bindings : Bindings V =>
      ∀ (name : String) value, bindings[name]? = some value → P value) globals _ (by simp) ?_
    intro bindings hbindings entry hmem name value hvalue
    rcases getElem?_insert_some hvalue with hnew | hold
    · exact hnew ▸ h entry hmem
    · exact hbindings name value hold
  intro id name value hvalue
  cases id with
  | zero => exact hglobals name value hvalue
  | succ index => simp [Scope.ofGlobals, getIn?, bindingsOf] at hvalue

end Scope

/-! ### Runs -/

/-- The scope holds no functions but those with the property, and assignments are proper. -/
def Discipline.functions (P : FnDecl Stmt → Prop) : Discipline where
  machine machine := machine.scope.All (Value.Functions fun decl _ => P decl)
  value := Value.Functions fun decl _ => P decl
  function := P
  strict := True
  hereditary := Value.hereditary_functions
  get _ h _ _ hget := h.get hget
  update _ h _ _ _ hstored hupdate := h.update hstored hupdate
  insert _ h _ _ hstored := h.insert hstored
  declare _ h _ hdecl := h.insert hdecl
  exchange _ h _ := h

namespace Eval

variable {P : FnDecl Stmt → Prop} {host : Host} {invoke : Invoke}

theorem functions_start (P : FnDecl Stmt → Prop) : (Discipline.functions P).machine .start := by
  refine Scope.all_ofGlobals fun entry hmem => ?_
  obtain ⟨builtin, -, rfl⟩ := List.mem_map.mp hmem
  exact trivial

theorem functions_bindArguments {machine : Machine}
    (h : (Discipline.functions P).machine machine) {arguments : List Value}
    (harguments : ∀ argument ∈ arguments, (Discipline.functions P).value argument)
    (parameters : List Parameter) :
    (Discipline.functions P).machine (bindArguments parameters arguments machine) := by
  refine List.foldlRecOn _ _ h fun state hstate pair hmem => ?_
  have hvalue := harguments pair.2 (List.of_mem_zip hmem).2
  exact (Discipline.functions P).insert state hstate _ _ hvalue

theorem functions_declareFunctions {machine : Machine} {program : List Stmt}
    (h : (Discipline.functions P).machine machine)
    (hprogram : ∀ decl, .function decl ∈ program → P decl) :
    (Discipline.functions P).machine (declareFunctions program machine) := by
  refine List.foldlRecOn _ _ h fun state hstate decl hmem => ?_
  obtain ⟨stmt, hstmt, hdecl⟩ := List.mem_filterMap.mp hmem
  rw [Stmt.eq_function_of_decl? hdecl] at hstmt
  exact (Discipline.functions P).declare state hstate decl (hprogram decl hstmt)

/-- A call keeps a property of functions, if the body of a function with it may run and the calls
inside the body keep it. -/
theorem governs_functions_call (hbodies : ∀ decl, P decl →
      ∀ part ∈ Stmt.partsOfBlock decl.body, (Discipline.functions P).Admits part)
    (hframes : ∀ scope, (Discipline.frames scope).Governs invoke)
    (hinvoke : (Discipline.functions P).Governs invoke) (fuel : Nat) :
    (Discipline.functions P).Governs (call host invoke fuel) := by
  intro decl frame arguments hdecl harguments
  refine Ensures.call (fun _ hm _ => ⟨hm, Discipline.permits_of_isOrdinary rfl⟩)
    (fun _ hm _ => ⟨hm, Discipline.permits_of_isOrdinary rfl⟩) fun machine parent hm _ _ => ?_
  -- That the pop succeeds is known from the frames, what is left after it from the values.
  have hpops := body_popsPushed host hframes fuel decl arguments machine parent
  have hkeeps : (Discipline.functions P).Keeps (body host invoke fuel decl arguments)
      (Flow.Holds (Discipline.functions P).value) := by
    refine Discipline.Keeps.bind (Discipline.Keeps.change fun _ h =>
      functions_bindArguments h harguments decl.parameters) fun _ _ => ?_
    exact Discipline.keeps_block hinvoke fuel decl.body (hbodies decl hdecl)
  refine (hpops.and hkeeps).weaken ?_ ?_ ?_
  · rintro _ rfl
    exact ⟨rfl, Scope.All.push hm parent none⟩
  · rintro flow inner ⟨⟨outer, houter⟩, hinner, hflow⟩
    refine ⟨outer, houter.pop, hinner.pop houter.pop, ?_⟩
    cases flow with
    | normal => exact trivial
    | returned value => exact hflow
  · rintro halt inner ⟨⟨⟨outer, houter⟩, -⟩, hinner, hpermits⟩
    exact ⟨outer, houter.pop, hinner.pop houter.pop, hpermits⟩

end Eval

end Quill
