import Quill.Checker
import Quill.Eval
import Quill.Parser.Program
import Quill.Report

/-!
# Programs

A program is made of sources, whose statements are put one after the other.  It is compiled, which
fails with one report on everything found wrong, and then run.
-/

namespace Quill

/-- What is found out about sources before they are run. -/
structure Analysis where
  statements : List Stmt
  /-- The problems of scanning and parsing all sources and then of checking, in order. -/
  diagnostics : List Diagnostic
  /-- Why checking was stopped, if it was. -/
  fault : Option Fault

/-- Reads sources, numbered from `first` on. -/
def parseFrom : Nat → List Source → List Parsed
  | _, [] => []
  | first, source :: sources =>
    parse source.name source.contents first :: parseFrom (first + 1) sources

/-- Checks statements after problems that were found before. -/
def checkStatements (statements : List Stmt) (recorded : List Diagnostic) : Analysis :=
  match Check.program statements { Checker.start with recorded := recorded } with
  | .ok _ checker => ⟨statements, checker.recorded, none⟩
  | .error fault checker => ⟨statements, checker.recorded, some fault⟩

/-- Reads and checks sources. -/
def analyze (sources : List Source) : Analysis :=
  let parsed := parseFrom 0 sources
  checkStatements (parsed.flatMap (·.statements)) (parsed.flatMap (·.diagnostics))

/-- Why sources cannot be compiled and run to the end. -/
inductive Failure where
  | report (found : Report)
  | halt (reason : Halt)
  deriving DecidableEq, Inhabited

/-- The text that tells why a run ended early. -/
def Halt.message : Halt → String
  | fault cause => "Runtime fault: " ++ cause.message
  | noMain => "No main function"
  | outOfFuel => "Out of fuel"

/-- The text that tells the failure. -/
def Failure.message : Failure → String
  | report found => found.message
  | halt reason => reason.message

/-- The statements of sources without problems. -/
def compile (sources : List Source) : Except Failure (List Stmt) :=
  let analysis := analyze sources
  match analysis.fault with
  | some fault => .error (.halt (.fault fault))
  | none =>
    match Report.of? sources analysis.diagnostics with
    | some report => .error (.report report)
    | none => .ok analysis.statements

/-- How a run ended, and what it had printed by then. -/
structure Outcome where
  result : Except Failure Unit
  output : String

/-- Runs statements. -/
def runStatements (host : Host) (fuel : Nat) (statements : List Stmt) : Outcome :=
  match Eval.program host fuel statements Machine.start with
  | .ok _ machine => ⟨.ok (), machine.console.output⟩
  | .error halt machine => ⟨.error (.halt halt), machine.console.output⟩

/-- Compiles sources and runs them. -/
def run (host : Host) (fuel : Nat) (sources : List Source) : Outcome :=
  match compile sources with
  | .ok statements => runStatements host fuel statements
  | .error failure => ⟨.error failure, ""⟩

end Quill
