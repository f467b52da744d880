import Quill.Proofs.Contents
import Quill.Proofs.Typing.Checked
import Quill.Proofs.Typing.Operations

/-!
# Machines of the right types

A machine inside a call agrees with the typing of the function that is called: the names in its
innermost frame have values of their types, the names that are surely bound are bound there, and the
global names have values of the types that the checker gave them.  All functions among the values
were declared at the top, so that their frame is the global one, which never goes away.
-/

namespace Quill

/-- The handle of the global frame. -/
def FrameHandle.top : FrameHandle := ⟨0, 0⟩

/-- The value has the type, and all functions in it are known ones that were declared at the top. -/
structure Value.Sound (known : FnDecl Stmt → Prop) (type : Ty) (value : Value) : Prop where
  typed : value.hasType type = true
  functions : value.Functions fun decl frame => known decl ∧ frame = .top

namespace Value

variable {known : FnDecl Stmt → Prop} {type element leftType rightType : Ty}
  {value left right : Value}

theorem sound_of_isPlain (htype : value.hasType type = true) (hplain : value.isPlain = true) :
    value.Sound known type :=
  ⟨htype, hereditary_functions.plain value hplain⟩

theorem sound_array {elements : List Value} (h : ∀ item ∈ elements, item.Sound known element) :
    (array elements).Sound known (.array element) where
  typed := allHaveType_iff.mpr fun item hmem => (h item hmem).typed
  functions := (hereditary_functions.array elements).mpr fun item hmem => (h item hmem).functions

/-- The result is a sound value of the type, or a fault that depends on the values. -/
def Delivers (known : FnDecl Stmt → Prop) (type : Ty) : Except Fault Value → Prop
  | .ok value => value.Sound known type
  | .error fault => fault.dependsOnValues = true

theorem delivers_of_yields {result : Except Fault Value} (h : Yields type result)
    (hfunctions : ∀ value, result = .ok value →
      value.Functions fun decl frame => known decl ∧ frame = .top) :
    Delivers known type result := by
  cases result with
  | ok value => exact ⟨h, hfunctions value rfl⟩
  | error fault => exact h

theorem delivers_apply {operator : Operator} (h : operator.Takes leftType rightType type)
    (hleft : left.Sound known leftType) (hright : right.Sound known rightType) :
    Delivers known type (left.apply operator right) :=
  delivers_of_yields (yields_apply h hleft.typed hright.typed) fun _ hok =>
    hereditary_functions.apply hleft.functions hright.functions hok

theorem delivers_elementAt {aggregate : Ty} {index : Int64} (h : aggregate.Contains type)
    (hvalue : value.Sound known aggregate) : Delivers known type (value.elementAt index) :=
  delivers_of_yields (yields_elementAt h hvalue.typed) fun _ hok =>
    hereditary_functions.elementAt hvalue.functions hok

theorem delivers_storeAt {aggregate : Ty} {stored : Value} (index : Int64)
    (h : aggregate.Contains type) (hvalue : value.Sound known aggregate)
    (hstored : stored.Sound known type) :
    Delivers known aggregate (value.storeAt index stored) :=
  delivers_of_yields (yields_storeAt h hvalue.typed hstored.typed) fun _ hok =>
    hereditary_functions.storeAt hvalue.functions hstored.functions hok

end Value

/-! ### Locations -/

namespace Location

variable {known : FnDecl Stmt → Prop} {shows : String → Ty → Prop} {scope : Scope Value}

/-- The location holds values of the type, if names do of the types that they show. -/
def Typed (known : FnDecl Stmt → Prop) (shows : String → Ty → Prop) : Location → Ty → Prop
  | named name, type => shows name type
  | temporary value, type => value.Sound known type
  | element base _, type => ∃ aggregate : Ty, aggregate.Contains type ∧
      base.Typed known shows aggregate

/-- Reading a typed location gives a value of its type. -/
theorem delivers_read
    (hget : ∀ name type, shows name type →
      ∃ value, scope.get? name = some value ∧ value.Sound known type)
    {location : Location} {type : Ty} (h : location.Typed known shows type) :
    Value.Delivers known type (location.read scope) := by
  induction location generalizing type with
  | named name =>
      obtain ⟨value, hvalue, hsound⟩ := hget name type h
      simp only [read, hvalue]
      exact hsound
  | temporary value => exact h
  | element base index ih =>
      obtain ⟨aggregate, hcontains, hbase⟩ := h
      have hread := ih hbase
      simp only [read]
      cases hresult : base.read scope with
      | error fault =>
          rw [hresult] at hread
          exact hread
      | ok value =>
          rw [hresult] at hread
          exact Value.delivers_elementAt hcontains hread

/-- The write ends in a scope with the property, or in a fault that depends on the values. -/
def Lands (after : Scope Value → Prop) : Except Fault (Scope Value) → Prop
  | .ok scope => after scope
  | .error fault => fault.dependsOnValues = true

/-- Writing a value of its type to a typed location that is stored updates a name by a value of the
type that it shows. -/
theorem lands_write {after : Scope Value → Prop}
    (hget : ∀ name type, shows name type →
      ∃ value, scope.get? name = some value ∧ value.Sound known type)
    (hupdate : ∀ name type value, shows name type → value.Sound known type →
      ∃ updated, scope.update? name value = some updated ∧ after updated)
    {location : Location} {type : Ty} {value : Value} (h : location.Typed known shows type)
    (hstored : location.isStored = true) (hvalue : value.Sound known type) :
    Lands after (location.write scope value) := by
  induction location generalizing type value with
  | named name =>
      obtain ⟨updated, hupdated, hafter⟩ := hupdate name type value h hvalue
      simp only [write, hupdated]
      exact hafter
  | temporary held => exact Bool.noConfusion hstored
  | element base index ih =>
      obtain ⟨aggregate, hcontains, hbase⟩ := h
      have hread := delivers_read hget hbase
      simp only [write]
      cases hresult : base.read scope with
      | error fault =>
          rw [hresult] at hread
          exact hread
      -- The whole aggregate is written back, and it has the type of the base.
      | ok held =>
          rw [hresult] at hread
          have hstore := Value.delivers_storeAt index hcontains hread hvalue
          dsimp only
          cases hupdated : held.storeAt index value with
          | error fault =>
              rw [hupdated] at hstore
              exact hstore
          | ok updated =>
              rw [hupdated] at hstore
              exact ih hbase hstored hstore

end Location

/-! ### Machines -/

/-- All names that are bound have values of their types. -/
def Fits (known : FnDecl Stmt → Prop) (types : Bindings Ty) (values : Bindings Value) : Prop :=
  ∀ (name : String) (value : Value), values[name]? = some value →
    ∃ type, types[name]? = some type ∧ value.Sound known type

theorem Fits.insert {known : FnDecl Stmt → Prop} {types : Bindings Ty} {values : Bindings Value}
    {name : String} {type : Ty} {value : Value} (h : Fits known types values)
    (htype : types[name]? = some type) (hvalue : value.Sound known type) :
    Fits known types (values.insert name value) := by
  intro other found hfound
  rw [Scope.getElem?_insert] at hfound
  by_cases heq : name = other
  · rw [if_pos heq] at hfound
    obtain rfl := Option.some.inj hfound
    exact ⟨type, heq ▸ htype, hvalue⟩
  · rw [if_neg heq] at hfound
    exact h other found hfound

theorem Fits.declare {known : FnDecl Stmt → Prop} {types : Bindings Ty} {values : Bindings Value}
    {name : String} {type : Ty} {value : Value} (h : Fits known types values)
    (hvalue : value.Sound known type) :
    Fits known (types.insert name type) (values.insert name value) := by
  intro other found hfound
  rw [Scope.getElem?_insert] at hfound ⊢
  by_cases heq : name = other
  · rw [if_pos heq] at hfound ⊢
    obtain rfl := Option.some.inj hfound
    exact ⟨type, rfl, hvalue⟩
  · rw [if_neg heq] at hfound ⊢
    exact h other found hfound

/-- The names that are bound are exactly those that have types, with values of these types. -/
structure GlobalsFit (known : FnDecl Stmt → Prop) (types : Bindings Ty) (values : Bindings Value) :
    Prop where
  fits : Fits known types values
  bound : ∀ name ∈ types, name ∈ values

namespace GlobalsFit

variable {known : FnDecl Stmt → Prop} {types : Bindings Ty} {values : Bindings Value}
  {name : String} {type : Ty} {value : Value}

theorem get (h : GlobalsFit known types values) (htype : types[name]? = some type) :
    ∃ value, values[name]? = some value ∧ value.Sound known type := by
  have hmem : name ∈ types := Scope.mem_of_getElem? htype
  have hvalue := Std.ExtTreeMap.getElem?_eq_some_getElem (h.bound name hmem)
  obtain ⟨other, hother, hsound⟩ := h.fits name _ hvalue
  rw [htype] at hother
  obtain rfl := Option.some.inj hother
  exact ⟨_, hvalue, hsound⟩

theorem insert (h : GlobalsFit known types values) (htype : types[name]? = some type)
    (hvalue : value.Sound known type) : GlobalsFit known types (values.insert name value) where
  fits := h.fits.insert htype hvalue
  bound other hother := Scope.mem_insert_iff.mpr (.inr (h.bound other hother))

/-- A name is declared on both sides. -/
theorem declare (h : GlobalsFit known types values) (hvalue : value.Sound known type) :
    GlobalsFit known (types.insert name type) (values.insert name value) where
  fits := h.fits.declare hvalue
  bound other hother := by
    rw [Scope.mem_insert_iff] at hother ⊢
    exact hother.imp id (h.bound other)

end GlobalsFit

/-- What the body of a function is run with: the functions of the program, the types of the global
and of the local names, and the frames below its own. -/
structure Setting where
  known : FnDecl Stmt → Prop
  globals : Bindings Ty
  locals : Bindings Ty
  below : Array (Frame Value)

namespace Setting

variable {setting : Setting} {bound : List String} {machine : Machine} {name : String} {type : Ty}
  {value : Value}

/-- The machine is inside the body, and some names are bound in its innermost frame. -/
structure Holds (setting : Setting) (bound : List String) (machine : Machine) : Prop where
  globals : GlobalsFit setting.known setting.globals machine.scope.globals
  frame : ∃ frame, machine.scope.frames = setting.below.push frame ∧ frame.parent = Scope.global ∧
    Fits setting.known setting.locals frame.bindings ∧ ∀ name ∈ bound, name ∈ frame.bindings

/-- The name has the type, where it may be mentioned. -/
def Shows (setting : Setting) (bound : List String) (name : String) (type : Ty) : Prop :=
  name ∈ bound ∧ setting.locals[name]? = some type ∨
    name ∉ setting.locals ∧ setting.globals[name]? = some type

theorem Holds.of_subset {fewer : List String} (h : setting.Holds bound machine)
    (hfewer : ∀ name ∈ fewer, name ∈ bound) : setting.Holds fewer machine := by
  obtain ⟨hglobals, frame, hframes, hparent, hfits, hbound⟩ := h
  exact ⟨hglobals, frame, hframes, hparent, hfits,
    fun name hname => hbound name (hfewer name hname)⟩

theorem Holds.exchange (h : setting.Holds bound machine) (console : Console) :
    setting.Holds bound { machine with console := console } :=
  ⟨h.globals, h.frame⟩

/-- A name that is not local is not bound in the innermost frame. -/
theorem not_mem_of_fits {bindings : Bindings Value}
    (hfits : Fits setting.known setting.locals bindings) (hname : name ∉ setting.locals) :
    name ∉ bindings := by
  intro hmem
  obtain ⟨type, htype, -⟩ := hfits name _ (Std.ExtTreeMap.getElem?_eq_some_getElem hmem)
  exact hname (Scope.mem_of_getElem? htype)

/-- A name has a value of the type that it shows. -/
theorem Holds.get (h : setting.Holds bound machine) (hshows : setting.Shows bound name type) :
    ∃ value, machine.scope.get? name = some value ∧ value.Sound setting.known type := by
  obtain ⟨hglobals, frame, hframes, hparent, hfits, hbound⟩ := h
  obtain ⟨⟨globals, frames, pushed⟩, console⟩ := machine
  obtain rfl : frames = setting.below.push frame := hframes
  rw [Scope.get?_overGlobals hparent]
  -- A local name is bound in the frame itself; any other one is not, and is found below it.
  rcases hshows with ⟨hmem, htype⟩ | ⟨hlocal, htype⟩
  · have hvalue := Std.ExtTreeMap.getElem?_eq_some_getElem (hbound name hmem)
    obtain ⟨other, hother, hsound⟩ := hfits name _ hvalue
    rw [htype] at hother
    obtain rfl := Option.some.inj hother
    rw [hvalue]
    exact ⟨_, rfl, hsound⟩
  · rw [Std.ExtTreeMap.getElem?_eq_none (not_mem_of_fits hfits hlocal), Option.none_or]
    exact hglobals.get htype

/-- A name can be given any value of the type that it shows. -/
theorem Holds.update (h : setting.Holds bound machine) (hshows : setting.Shows bound name type)
    (hvalue : value.Sound setting.known type) :
    ∃ updated, machine.scope.update? name value = some updated ∧
      setting.Holds bound { machine with scope := updated } := by
  obtain ⟨hglobals, frame, hframes, hparent, hfits, hbound⟩ := h
  obtain ⟨⟨globals, frames, pushed⟩, console⟩ := machine
  obtain rfl : frames = setting.below.push frame := hframes
  rw [Scope.update?_overGlobals hparent]
  rcases hshows with ⟨hmem, htype⟩ | ⟨hlocal, htype⟩
  · rw [if_pos (hbound name hmem)]
    refine ⟨_, rfl, hglobals, _, rfl, hparent, hfits.insert htype hvalue, ?_⟩
    exact fun other hother => Scope.mem_insert_iff.mpr (.inr (hbound other hother))
  · have hmem : name ∈ globals := by
      obtain ⟨found, hfound, -⟩ := hglobals.get htype
      exact Scope.mem_of_getElem? hfound
    rw [if_neg (not_mem_of_fits hfits hlocal), if_pos hmem]
    exact ⟨_, rfl, hglobals.insert htype hvalue, frame, rfl, hparent, hfits, hbound⟩

/-- Binding a local name to a value of its type. -/
theorem Holds.insert (h : setting.Holds bound machine) (htype : setting.locals[name]? = some type)
    (hvalue : value.Sound setting.known type) :
    setting.Holds (name :: bound) (machine.insert name value) := by
  obtain ⟨hglobals, frame, hframes, hparent, hfits, hbound⟩ := h
  obtain ⟨⟨globals, frames, pushed⟩, console⟩ := machine
  obtain rfl : frames = setting.below.push frame := hframes
  rw [Machine.insert, Scope.insert_push]
  refine ⟨hglobals, _, rfl, hparent, hfits.insert htype hvalue, ?_⟩
  intro other hother
  rcases List.mem_cons.mp hother with rfl | hold
  · exact Std.ExtTreeMap.mem_insert_self
  · exact Scope.mem_insert_iff.mpr (.inr (hbound other hold))

end Setting

end Quill
