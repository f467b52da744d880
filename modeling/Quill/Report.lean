import Quill.Diagnostic
import Quill.Text.Line

/-!
# Reports

A report shows diagnostics to the author of a program: for each of them the place, the message,
the line of text and carets under the text to blame.
-/

namespace Quill

/-- A named text handed in as part of a program. -/
structure Source where
  name : String
  contents : String
  deriving DecidableEq, Inhabited

/-- The text of a file: the last source of that name, and nothing for an unknown file. -/
def contentsOf (sources : List Source) (file : String) : String :=
  match sources.reverse.find? (·.name == file) with
  | some source => source.contents
  | none => ""

/-- The components of a path that name something. -/
def pathComponents (path : String) : List String :=
  (path.splitOn "/").filter fun component => component != "" && component != "."

/-- How a file is named in a report: by the last component of its path, or by the whole path if
that does not end in a name. -/
def fileTitle (path : String) : String :=
  match (pathComponents path).getLast? with
  | some component => if component == ".." then path else component
  | none => path

/-- The number of carets under a span: one for each character, and at least one. -/
def caretCount (contents : String) (span : Span) : Nat :=
  match Text.slice? span.start.offset span.stop.offset contents.toList with
  | some text => max text.length 1
  | none => 1

/-- One diagnostic as a block of text. -/
def Diagnostic.render (sources : List Source) (diagnostic : Diagnostic) : String :=
  let span := diagnostic.span
  let contents := contentsOf sources span.file
  let line := Text.lineAt contents span.start.offset
  fileTitle span.file ++ ":" ++ toString line.number ++ ":" ++ toString (line.column + 1) ++ ": "
    ++ diagnostic.problem.message ++ "\n" ++ line.text ++ "\n"
    ++ String.ofList (List.replicate line.column ' ')
    ++ String.ofList (List.replicate (caretCount contents span) '^')

/-- The diagnostics of a failed compilation, one block for each. -/
structure Report where
  blocks : List String
  deriving DecidableEq, Inhabited

namespace Report

/-- The whole report as one text. -/
def message (report : Report) : String :=
  "\n\n".intercalate report.blocks

/-- The report on a list of diagnostics; there is none if the list is empty. -/
def of? (sources : List Source) (diagnostics : List Diagnostic) : Option Report :=
  if diagnostics.isEmpty then
    none
  else
    some ⟨diagnostics.map (·.render sources)⟩

end Report

end Quill
