import Quill.Fault
import Quill.Ty
import Std.Data.ExtTreeMap

/-!
# Scopes

A scope holds the names that a program can see: those of the global frame, and those of a stack of
frames on top of it, one for each call in progress.  Every frame points at the frame in which names
that it does not bind are looked up; for a function body that is the frame the function was declared
in, not the frame of its caller.  The type checker keeps a scope of types, the evaluator one of
values.

Frames are numbered from the bottom, and the global frame has number zero.  A number is used again
after its frame was popped, so a function value remembers its frame by a handle, which also carries
the serial number of the push.
-/

namespace Quill

/-- The number of a frame, counted from the bottom of the stack. -/
abbrev FrameId := Nat

/-- The names bound in one frame. -/
abbrev Bindings (V : Type) := Std.ExtTreeMap String V

/-- A name for one particular frame; it goes stale when that frame is popped. -/
structure FrameHandle where
  id : FrameId
  serial : Nat
  deriving DecidableEq, Inhabited

/-- A frame above the global one. -/
structure Frame (V : Type) where
  bindings : Bindings V
  /-- The return type, if the frame belongs to the body of a function that is being checked. -/
  context : Option Ty
  /-- Where names that the frame does not bind are looked up. -/
  parent : FrameId
  /-- The number of pushes up to the one that made the frame. -/
  serial : Nat

/-- A stack of frames. -/
structure Scope (V : Type) where
  /-- The names bound in the global frame, which is never popped. -/
  globals : Bindings V
  /-- The other frames, innermost last. -/
  frames : Array (Frame V)
  /-- The number of frames pushed so far. -/
  pushed : Nat

namespace Scope

variable {V : Type}

/-- The scope with the global frame only; of two globals with one name the later is bound. -/
def ofGlobals (globals : List (String × V)) : Scope V where
  globals := globals.foldl (fun bindings entry => bindings.insert entry.1 entry.2) ∅
  frames := #[]
  pushed := 0

instance : Inhabited (Scope V) := ⟨ofGlobals []⟩

/-- The global frame. -/
def global : FrameId := 0

/-- The innermost frame. -/
def current (scope : Scope V) : FrameId :=
  scope.frames.size

/-- The number of frames, the global one included. -/
def depth (scope : Scope V) : Nat :=
  scope.frames.size + 1

/-- The frame with a number above zero. -/
def frame? (scope : Scope V) : FrameId → Option (Frame V)
  | 0 => none
  | index + 1 => scope.frames[index]?

/-- The names bound in a frame; none for a frame that is not on the stack. -/
def bindingsOf (scope : Scope V) : FrameId → Bindings V
  | 0 => scope.globals
  | index + 1 =>
    match scope.frames[index]? with
    | some frame => frame.bindings
    | none => ∅

/-- The value of a name in one frame. -/
def getIn? (scope : Scope V) (id : FrameId) (name : String) : Option V :=
  (scope.bindingsOf id)[name]?

/-- Pushes a frame that binds nothing yet. -/
def push (scope : Scope V) (parent : FrameId) (context : Option Ty) : Scope V :=
  { scope with
    frames := scope.frames.push ⟨∅, context, parent, scope.pushed + 1⟩
    pushed := scope.pushed + 1 }

/-- Pops the innermost frame.  The global frame stays. -/
def pop (scope : Scope V) : Except Fault (Scope V) :=
  if scope.frames.isEmpty then
    .error .popGlobalFrame
  else
    .ok { scope with frames := scope.frames.pop }

/-- The handle of a frame on the stack. -/
def handle? (scope : Scope V) : FrameId → Option FrameHandle
  | 0 => some ⟨0, 0⟩
  | index + 1 => scope.frames[index]?.map fun frame => ⟨index + 1, frame.serial⟩

/-- The handle of the innermost frame. -/
def currentHandle (scope : Scope V) : FrameHandle :=
  (scope.handle? scope.current).getD ⟨0, 0⟩

/-- The frame that a handle names, as long as that frame is on the stack. -/
def resolve (scope : Scope V) (handle : FrameHandle) : Option FrameId :=
  if scope.handle? handle.id = some handle then some handle.id else none

/-- The frames that are searched for a name, starting with the given one: each next one is the
parent of the one before.  The first argument bounds their number. -/
def chainFrom (scope : Scope V) : Nat → FrameId → List FrameId
  | 0, _ => []
  | bound + 1, id =>
    match scope.frame? id with
    | some frame => id :: scope.chainFrom bound frame.parent
    | none => [id]

/-- The frames that are searched for a name.  Parents are older than their children, so there are
never more of them than frames. -/
def chain (scope : Scope V) : List FrameId :=
  scope.chainFrom scope.depth scope.current

/-- The return type of the nearest frame that belongs to a function body. -/
def context (scope : Scope V) : Option Ty :=
  scope.chain.findSome? fun id => (scope.frame? id).bind (·.context)

/-- The nearest frame that binds a name. -/
def find? (scope : Scope V) (name : String) : Option FrameId :=
  scope.chain.find? fun id => (scope.bindingsOf id).contains name

/-- The value of a name in the nearest frame that binds it. -/
def get? (scope : Scope V) (name : String) : Option V :=
  (scope.find? name).bind fun id => scope.getIn? id name

/-- The value of a name in the innermost frame. -/
def getLocal? (scope : Scope V) (name : String) : Option V :=
  scope.getIn? scope.current name

/-- Binds a name in a frame, replacing what it was bound to there. -/
def insertIn (scope : Scope V) (id : FrameId) (name : String) (value : V) : Scope V :=
  match id with
  | 0 => { scope with globals := scope.globals.insert name value }
  | index + 1 =>
    { scope with
      frames := scope.frames.modify index fun frame =>
        { frame with bindings := frame.bindings.insert name value } }

/-- Binds a name in the innermost frame, replacing what it was bound to there. -/
def insert (scope : Scope V) (name : String) (value : V) : Scope V :=
  scope.insertIn scope.current name value

/-- Binds a name anew in the nearest frame that binds it; there is no result if none does. -/
def update? (scope : Scope V) (name : String) (value : V) : Option (Scope V) :=
  (scope.find? name).map fun id => scope.insertIn id name value

end Scope

end Quill
