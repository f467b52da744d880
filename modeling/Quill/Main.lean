import Quill.CommandLine
import Quill.Program

/-!
# The command line tool

Reads the files named on the command line, checks them as one program and runs it, unless only a
check was asked for.
-/

namespace Quill.Tool

/-- A bound on the length of a run that no run reaches in practice. -/
def fuel : Nat := 1000000000000000000

/-- Random words by their number, spread out from a seed. -/
def wordOf (seed : UInt64) (number : Nat) : UInt64 :=
  let step := seed + 0x9E3779B97F4A7C15 * UInt64.ofNat (number + 1)
  let first := (step ^^^ (step >>> 30)) * 0xBF58476D1CE4E5B9
  let second := (first ^^^ (first >>> 27)) * 0x94D049BB133111EB
  second ^^^ (second >>> 31)

/-- Reads the files of a program. -/
def readSources (files : List String) : IO (List Source) :=
  files.mapM fun (file : String) => do
    try
      let contents ← IO.FS.readFile file
      return ⟨file, contents⟩
    catch error =>
      throw (IO.userError ("Failed to read '" ++ file ++ "': " ++ toString error))

/-- Does what the command line asks for, and gives the text of the failure if there is one. -/
def execute (line : CommandLine) : IO (Except String Unit) := do
  let sources ← readSources line.files
  if line.checkOnly then
    return (compile sources).map (fun _ => ()) |>.mapError Failure.message
  else
    let seed ← IO.rand 0 0xFFFFFFFFFFFFFFFF
    let words := wordOf (UInt64.ofNat seed)
    let outcome := run (.accepting fun number => words number) fuel sources
    IO.print outcome.output
    return outcome.result.mapError Failure.message

end Quill.Tool

open Quill in
def main (arguments : List String) : IO UInt32 := do
  match CommandLine.parse arguments with
  | .error refusal =>
    IO.eprintln refusal.message
    return 2
  | .ok line =>
    try
      match ← Tool.execute line with
      | .ok _ => return 0
      | .error message =>
        IO.eprintln message
        return 1
    catch error =>
      IO.eprintln (toString error)
      return 1
