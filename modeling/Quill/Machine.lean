import Quill.Arithmetic
import Quill.Draw
import Quill.Location

/-!
# The machine

The machine is what a running program changes: the values in scope, and what it has exchanged with
its surroundings.  The surroundings themselves are a `Host`, which may refuse output and which
makes random draws.
-/

namespace Quill

/-- The surroundings of a running program. -/
structure Host where
  /-- The reason for which a text is refused, given the texts accepted before it. -/
  refusal : Array String → String → Option String
  /-- The reason for which finishing the output fails. -/
  flushFailure : Option String
  /-- The random draws, by their number. -/
  draw : Nat → Draw

namespace Host

/-- A host that accepts all output. -/
def accepting (draw : Nat → Draw) : Host where
  refusal _ _ := none
  flushFailure := none
  draw := draw

/-- The number of bytes in texts. -/
def totalBytes (texts : Array String) : Nat :=
  texts.foldl (fun total text => total + text.utf8ByteSize) 0

/-- The same host, with room for a limited number of bytes.  A text that does not fit is refused as
a whole. -/
def limited (host : Host) (limit : Nat) (reason : String) : Host :=
  { host with
    refusal := fun accepted text =>
      if limit < totalBytes accepted + text.utf8ByteSize then
        some reason
      else
        host.refusal accepted text }

end Host

/-- What a program has exchanged with its surroundings. -/
structure Console where
  /-- The texts that were accepted, in order. -/
  written : Array String
  /-- The number of random draws made. -/
  drawn : Nat
  deriving DecidableEq, Inhabited

namespace Console

/-- Nothing exchanged yet. -/
def empty : Console where
  written := #[]
  drawn := 0

/-- All accepted output as one text. -/
def output (console : Console) : String :=
  console.written.foldl (· ++ ·) ""

end Console

/-- Why a run ends early. -/
inductive Halt where
  | fault (cause : Fault)
  /-- There is no function `main` without parameters. -/
  | noMain
  /-- The bound on the length of the run is used up. -/
  | outOfFuel
  deriving DecidableEq, Inhabited

/-- The state of a running program. -/
structure Machine where
  scope : Scope Value
  console : Console

namespace Machine

/-- The machine before a run: the built-in functions are in scope. -/
def start : Machine where
  scope := .ofGlobals (Builtin.all.map fun builtin => (builtin.name, .builtin builtin))
  console := .empty

instance : Inhabited Machine := ⟨start⟩

/-- Binds a name in the innermost frame. -/
def insert (machine : Machine) (name : String) (value : Value) : Machine :=
  { machine with scope := machine.scope.insert name value }

/-- Binds a declared function in the innermost frame; the function remembers that frame. -/
def declare (machine : Machine) (decl : FnDecl Stmt) : Machine :=
  machine.insert decl.name (.function decl machine.scope.currentHandle)

end Machine

end Quill
