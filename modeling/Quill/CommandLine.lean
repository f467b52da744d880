/-!
# Command lines

What the arguments of the program ask for.
-/

namespace Quill

/-- What to do with which files. -/
structure CommandLine where
  /-- The files that make up the program. -/
  files : List String
  /-- Only report what is wrong, and do not run the program. -/
  checkOnly : Bool
  deriving DecidableEq, Inhabited

namespace CommandLine

/-- Why arguments are refused. -/
inductive Refusal where
  | noFiles
  | unknownOption (text : String)
  deriving DecidableEq, Inhabited

/-- The sentence that tells why arguments are refused. -/
def Refusal.message : Refusal → String
  | noFiles => "error: the following required arguments were not provided:\n  <FILES>..."
  | unknownOption text => "error: unexpected argument '" ++ text ++ "' found"

/-- Whether an argument asks for more messages, such as `-v` or `-vv`. -/
def isVerbose (argument : String) : Bool :=
  argument == "--verbose" ||
    match argument.toList with
    | '-' :: 'v' :: more => more.all (· == 'v')
    | _ => false

/-- Reads the arguments; after `--` all of them are files. -/
def read : List String → Except Refusal CommandLine
  | [] => .ok ⟨[], false⟩
  | "--" :: files => .ok ⟨files, false⟩
  | argument :: others =>
    match read others with
    | .error refusal => .error refusal
    | .ok line =>
      if argument == "--check" then
        .ok { line with checkOnly := true }
      else if isVerbose argument then
        .ok line
      else if argument.startsWith "-" && argument != "-" then
        .error (.unknownOption argument)
      else
        .ok { line with files := argument :: line.files }

/-- Reads the arguments; at least one file must be among them. -/
def parse (arguments : List String) : Except Refusal CommandLine :=
  match read arguments with
  | .ok line => if line.files.isEmpty then .error .noFiles else .ok line
  | .error refusal => .error refusal

end CommandLine

end Quill
