import Quill.Builtin.Run

/-!
# Running programs

Expressions and statements are run by going through their trees.  Two things in a run have no bound
in the tree: the depth of calls and the number of rounds of a loop with a condition.  Both are
bounded by fuel, and a run that needs more ends as `outOfFuel`, which is no result of the program.

How a declared function is called is a parameter `invoke` of everything below; `callWithin` ties it
to the fuel.  A call runs in a frame of its own, whose parent is the frame the function was declared
in, and that frame is popped however the call ends.
-/

namespace Quill

/-- An action of a running program. -/
abbrev Eval := EStateM Halt Machine

/-- How a declared function is called. -/
abbrev Invoke := FnDecl Stmt → FrameHandle → List Value → Eval Value

/-- How a statement ends. -/
inductive Flow where
  | normal
  /-- A return, which ends the call around the statement. -/
  | returned (value : Value)
  deriving Inhabited

namespace Eval

/-- Stops with a fault. -/
def fail {α : Type} (fault : Fault) : Eval α := fun machine => .error (.fault fault) machine

/-- A result that may be a fault. -/
def ofExcept {α : Type} : Except Fault α → Eval α
  | .ok value => pure value
  | .error fault => fail fault

/-- A change of the machine that cannot fail. -/
def change (f : Machine → Machine) : Eval Unit := fun machine => .ok () (f machine)

/-- An action on the surroundings. -/
def interact {α : Type} (action : Interact α) : Eval α := fun machine =>
  match action machine.console with
  | .ok value console => .ok value { machine with console := console }
  | .error fault console => .error (.fault fault) { machine with console := console }

/-- The value of a name. -/
def lookup (name : String) : Eval (Option Value) := fun machine =>
  .ok (machine.scope.get? name) machine

/-- The value at a location. -/
def read (location : Location) : Eval Value := fun machine =>
  match location.read machine.scope with
  | .ok value => .ok value machine
  | .error fault => .error (.fault fault) machine

/-- Writes a value to a location. -/
def write (location : Location) (value : Value) : Eval Unit := fun machine =>
  match location.write machine.scope value with
  | .ok scope => .ok () { machine with scope := scope }
  | .error fault => .error (.fault fault) machine

/-- The value at the location that an action finds. -/
def value (locate : Eval Location) : Eval Value := do
  let location ← locate
  read location

/-- The truth value that an action gives. -/
def truth (action : Eval Value) : Eval Bool := do
  match ← action with
  | .bool flag => return flag
  | other => fail (.uncheckedProgram ("a " ++ other.typeName ++ " condition"))

/-- The integer that an action gives. -/
def integer (action : Eval Value) : Eval Int64 := do
  match ← action with
  | .int number => return number
  | other => fail (.uncheckedProgram ("a " ++ other.typeName ++ " where an int was required"))

/-- Calls a value by the name under which it was found. -/
def apply (host : Host) (invoke : Invoke) (name : String) (callee : Value)
    (arguments : List Value) : Eval Value :=
  match callee with
  | .builtin native => interact (native.run host arguments)
  | .function decl frame => invoke decl frame arguments
  | _ => fail (.notCallable name)

mutual

/-- Runs an expression and gives the location it denotes: names and subscripts denote stored values,
everything else a temporary that holds the result. -/
def locate (host : Host) (invoke : Invoke) : Expr → Eval Location
  | .int number _ => return .temporary (.int number)
  | .float number _ => return .temporary (.float number)
  | .string text _ => return .temporary (.string text)
  | .bool flag _ => return .temporary (.bool flag)
  | .array elements _ => do
    let values ← evaluateAll host invoke elements
    return .temporary (.array values)
  | .name ident _ => return .named ident
  | .subscript base index _ => do
    let location ← locate host invoke base
    let place ← integer (value (locate host invoke index))
    return .element location place
  | .call callee _ arguments _ => do
    match ← lookup callee with
    | none => fail (.uncheckedProgram ("call to unbound '" ++ callee ++ "'"))
    | some function =>
      let values ← evaluateAll host invoke arguments
      let result ← apply host invoke callee function values
      return .temporary result
  | .binary operator left right _ => do
    let first ← value (locate host invoke left)
    let second ← value (locate host invoke right)
    let result ← ofExcept (first.apply operator second)
    return .temporary result
  | .assign target source _ => do
    let location ← locate host invoke target
    let result ← value (locate host invoke source)
    write location result
    return .temporary .void

/-- The values of expressions, from left to right. -/
def evaluateAll (host : Host) (invoke : Invoke) : List Expr → Eval (List Value)
  | [] => return []
  | expr :: exprs => do
    let first ← value (locate host invoke expr)
    let others ← evaluateAll host invoke exprs
    return first :: others

end

/-- The value of an expression. -/
def evaluate (host : Host) (invoke : Invoke) (expr : Expr) : Eval Value :=
  value (locate host invoke expr)

/-- Goes on with `next`, unless the statement before it returned. -/
def andThen (first next : Eval Flow) : Eval Flow := do
  match ← first with
  | .normal => next
  | .returned result => return .returned result

/-- Takes one of two ways. -/
def choose (condition : Eval Bool) (yes no : Eval Flow) : Eval Flow := do
  if ← condition then yes else no

/-- Runs `body` as long as the condition holds and nothing is returned, at most `fuel` times. -/
def repeatWhile (condition : Eval Bool) (body : Eval Flow) : Nat → Eval Flow
  | 0 => fun machine => .error .outOfFuel machine
  | fuel + 1 => choose condition (andThen body (repeatWhile condition body fuel)) (pure .normal)

/-- Runs `body` for `count` integers from `first` on, unless it returns. -/
def countFrom (body : Int64 → Eval Flow) : Nat → Int64 → Eval Flow
  | 0, _ => pure .normal
  | count + 1, first => andThen (body first) (countFrom body count (first + 1))

mutual

/-- Runs a statement. -/
def stmt (host : Host) (invoke : Invoke) (fuel : Nat) : Stmt → Eval Flow
  | .function decl => do
    change (·.declare decl)
    return .normal
  | .ret expr _ => do
    let result ← evaluate host invoke expr
    return .returned result
  | .bind name expr _ => do
    let result ← evaluate host invoke expr
    change (·.insert name result)
    return .normal
  | .expr expr => do
    let _ ← evaluate host invoke expr
    return .normal
  | .branch ⟨condition, body, _⟩ others otherwise =>
    choose (truth (evaluate host invoke condition)) (block host invoke fuel body)
      (arms host invoke fuel others (lastBlock host invoke fuel otherwise))
  | .loop condition body _ =>
    repeatWhile (truth (evaluate host invoke condition)) (block host invoke fuel body) fuel
  | .range counter lower upper body _ => do
    let first ← integer (evaluate host invoke lower)
    let last ← integer (evaluate host invoke upper)
    let round (number : Int64) : Eval Flow := do
      change (·.insert counter (.int number))
      block host invoke fuel body
    countFrom round (last.toInt - first.toInt).toNat first
  | .block inner => block host invoke fuel inner

/-- Runs the first arm whose condition holds, or else `last`. -/
def arms (host : Host) (invoke : Invoke) (fuel : Nat) : List (Arm Stmt) → Eval Flow → Eval Flow
  | [], last => last
  | ⟨condition, body, _⟩ :: others, last =>
    choose (truth (evaluate host invoke condition)) (block host invoke fuel body)
      (arms host invoke fuel others last)

/-- Runs the last block of a branch. -/
def lastBlock (host : Host) (invoke : Invoke) (fuel : Nat) : Option (Block Stmt) → Eval Flow
  | some inner => block host invoke fuel inner
  | none => pure .normal

/-- Runs a block, in the frame of the function around it. -/
def block (host : Host) (invoke : Invoke) (fuel : Nat) : Block Stmt → Eval Flow
  | ⟨body, _⟩ => stmts host invoke fuel body

/-- Runs statements up to the first that returns. -/
def stmts (host : Host) (invoke : Invoke) (fuel : Nat) : List Stmt → Eval Flow
  | [] => pure .normal
  | first :: others => andThen (stmt host invoke fuel first) (stmts host invoke fuel others)

end

/-- What a run has come to once the innermost frame is popped, however the run has ended. -/
def popped {α : Type} : EStateM.Result Halt Machine α → EStateM.Result Halt Machine α
  | .ok result inner =>
    match inner.scope.pop with
    | .ok outer => .ok result { inner with scope := outer }
    | .error fault => .error (.fault fault) inner
  | .error halt inner =>
    match inner.scope.pop with
    | .ok outer => .error halt { inner with scope := outer }
    | .error fault => .error (.fault fault) inner

/-- Runs an action in a new frame and pops that frame, however the action ends. -/
def inFrame {α : Type} (parent : FrameId) (action : Eval α) : Eval α := fun machine =>
  popped (action { machine with scope := machine.scope.push parent none })

/-- An action in a frame of its own starts right behind the push of that frame. -/
theorem inFrame_eq {α : Type} (parent : FrameId) (action : Eval α) (machine : Machine) :
    inFrame parent action machine =
      popped (action { machine with scope := machine.scope.push parent none }) := rfl

theorem popped_ok {α : Type} {result : α} {inner : Machine} {outer : Scope Value}
    (hpop : inner.scope.pop = .ok outer) :
    popped (.ok result inner) = .ok result { inner with scope := outer } := by
  simp only [popped, hpop]

theorem popped_error {α : Type} {halt : Halt} {inner : Machine} {outer : Scope Value}
    (hpop : inner.scope.pop = .ok outer) :
    popped (.error halt inner : EStateM.Result Halt Machine α) =
      .error halt { inner with scope := outer } := by
  simp only [popped, hpop]

/-- The frame that a handle names, or the fault of a function whose frame is gone. -/
def declaringFrame (decl : FnDecl Stmt) (frame : FrameHandle) : Eval FrameId := fun machine =>
  match machine.scope.resolve frame with
  | some id => .ok id machine
  | none => .error (.fault (.frameExpired decl.name)) machine

/-- Binds parameters to arguments in the innermost frame. -/
def bindArguments (parameters : List Parameter) (arguments : List Value) (machine : Machine) :
    Machine :=
  (parameters.zip arguments).foldl
    (fun machine pair => machine.insert pair.1.name pair.2) machine

/-- The result of a call, read off how its body ended. -/
def Flow.result : Flow → Value
  | .normal => .void
  | .returned value => value

/-- Runs the body of a function in the innermost frame, after binding its parameters there. -/
def body (host : Host) (invoke : Invoke) (fuel : Nat) (decl : FnDecl Stmt)
    (arguments : List Value) : Eval Flow := do
  change (bindArguments decl.parameters arguments)
  block host invoke fuel decl.body

/-- Calls a declared function; the calls inside its body are made by `invoke`. -/
def call (host : Host) (invoke : Invoke) (fuel : Nat) : Invoke := fun decl frame arguments => do
  if arguments.length ≠ decl.parameters.length then
    fail (.arityMismatch decl.name decl.parameters.length arguments.length)
  else
    let parent ← declaringFrame decl frame
    let flow ← inFrame parent (body host invoke fuel decl arguments)
    return Flow.result flow

/-- Calls a declared function, with fewer than `fuel` calls inside each other. -/
def callWithin (host : Host) : Nat → Invoke
  | 0 => fun _ _ _ machine => .error .outOfFuel machine
  | fuel + 1 => call host (callWithin host fuel) fuel

/-- Declares the functions at the top of a program. -/
def declareFunctions (program : List Stmt) (machine : Machine) : Machine :=
  (program.filterMap Stmt.decl?).foldl Machine.declare machine

/-- Runs the statements at the top of a program, except for its functions; none of them may
return. -/
def topLevel (host : Host) (invoke : Invoke) (fuel : Nat) : List Stmt → Eval Unit
  | [] => return ()
  | .function _ :: others => topLevel host invoke fuel others
  | first :: others => do
    match ← stmt host invoke fuel first with
    | .normal => topLevel host invoke fuel others
    | .returned _ => fail .returnOutsideFunction

/-- Calls the function `main`. -/
def callMain (invoke : Invoke) : Eval Unit := do
  match ← lookup "main" with
  | some (.function decl frame) =>
    if decl.parameters.isEmpty then
      let _ ← invoke decl frame []
    else
      throw .noMain
  | _ => throw .noMain

/-- Finishes the output. -/
def flush (host : Host) : Eval Unit :=
  match host.flushFailure with
  | some reason => fail (.outputFailed reason)
  | none => return ()

/-- Runs a program: declares its functions, runs its other statements in order, calls `main` and
finishes the output.  All calls are made by `invoke`. -/
def programVia (host : Host) (invoke : Invoke) (fuel : Nat) (program : List Stmt) : Eval Unit := do
  change (declareFunctions program)
  topLevel host invoke fuel program
  callMain invoke
  flush host

/-- Runs a program with fewer than `fuel` calls inside each other. -/
def program (host : Host) (fuel : Nat) (program : List Stmt) : Eval Unit :=
  programVia host (callWithin host fuel) fuel program

end Eval

end Quill
