import Quill.Parser.Stmt

/-!
# Reading a source text

A source text is read statement by statement up to its end.  Nothing stops the reader: a statement
that cannot be read is recorded and left out.
-/

namespace Quill

/-- Reads at most `bound` statements, stopping at the end of the text. -/
def Parser.statements (grammar : Grammar) : Nat → Parser → List Stmt × Parser
  | 0, parser => ([], parser)
  | bound + 1, parser =>
    if parser.atEnd then
      ([], parser)
    else
      let first := Parse.stmtOrRecover grammar parser
      let others := statements grammar bound first.2
      (first.1.toList ++ others.1, others.2)

/-- What was read of a source text. -/
structure Parsed where
  /-- Every statement that could be read. -/
  statements : List Stmt
  /-- The problems of scanning and parsing, in the order of discovery. -/
  diagnostics : List Diagnostic
  deriving Inhabited

/-- Reads a whole source text.  The number tells its functions from those of other sources. -/
def parse (file text : String) (source : Nat) : Parsed :=
  let parser := Parser.ofText file text source
  let result := parser.statements .standard (parser.remaining + 1)
  ⟨result.1, result.2.recorded⟩

end Quill
