import Quill.Parser.Annotation
import Quill.Parser.Expr
import Quill.Stmt

/-!
# Reading statements

Each form of statement is a function of the reader `sub` for the statements inside its blocks.  A
statement that cannot be read is recorded and costs the rest of its line only.
-/

namespace Quill

namespace Parse

/-- A reader for one statement of a block.  It cannot fail: it gives nothing for a statement that
was given up. -/
abbrev StmtReader := Parser → Option Stmt × Parser

/-- Reads a statement with `stmt`.  If that fails, records the problem and moves on to the next
line. -/
def orRecover (stmt : Parse Stmt) : StmtReader := fun parser =>
  match stmt parser with
  | .ok result next => (some result, next)
  | .error diagnostic next => (none, (next.record diagnostic).recover parser.consumed)

/-- A reader that cannot fail, as an action among others. -/
def always {α : Type} (reader : Parser → α × Parser) : Parse α := fun parser =>
  .ok (reader parser).1 (reader parser).2

/-- Reads statements up to a closing curly bracket. -/
def body (sub : StmtReader) : Nat → Parse (List Stmt)
  | 0 => unexpected
  | bound + 1 => do
    let kind ← currentKind
    if kind == .closeCurly || kind == .endOfInput then
      return []
    else
      let first ← always sub
      let others ← body sub bound
      return first.toList ++ others

/-- Reads a block. -/
def block (sub : StmtReader) : Parse (Block Stmt) := do
  let opening ← expect .openCurly
  let statements ← bounded (body sub)
  let closing ← expect .closeCurly
  return ⟨statements, opening.span.spanning closing.span⟩

/-- Reads one parameter of a function, and further ones after commas. -/
def parameters : Nat → Parse (List Parameter)
  | 0 => unexpected
  | bound + 1 => do
    let name ← expect .identifier
    let _ ← expect .colon
    let (type, _) ← annotation
    if ← accept .comma then
      let others ← parameters bound
      return ⟨name.value, type⟩ :: others
    else
      return [⟨name.value, type⟩]

/-- The number of the source that is read. -/
def sourceNumber : Parse Nat := fun parser => .ok parser.source parser

/-- Reads a function declaration. -/
def function (sub : StmtReader) : Parse Stmt := do
  let opening ← advance
  let name ← expect .identifier
  let _ ← expect .openParen
  let params ←
    if (← currentKind) == .closeParen then pure [] else bounded parameters
  let closing ← expect .closeParen
  let (returnType, last) ←
    if (← currentKind) == .openCurly then pure (.void, closing.span) else annotation
  let statements ← block sub
  let source ← sourceNumber
  return .function
    { id := ⟨source, opening.span.start.offset⟩
      name := name.value
      parameters := params
      returnType := returnType
      body := statements
      span := opening.span.spanning last }

/-- Reads a return statement. -/
def ret (grammar : Grammar) : Parse Stmt := do
  let opening ← advance
  let value ← expr grammar .lowest
  return .ret value (opening.span.spanning value.span)

/-- Reads the declaration of a variable. -/
def bind (grammar : Grammar) : Parse Stmt := do
  let opening ← advance
  let name ← expect .identifier
  let _ ← expect .assign
  let value ← expr grammar .lowest
  return .bind name.value value (opening.span.spanning value.span)

/-- Reads a word, a condition and a block. -/
def arm (grammar : Grammar) (sub : StmtReader) : Parse (Arm Stmt) := do
  let opening ← advance
  let condition ← expr grammar .lowest
  let statements ← block sub
  return ⟨condition, statements, opening.span.spanning condition.span⟩

/-- Reads what can follow the first arm of a branch: further arms, and a last block. -/
def otherArms (grammar : Grammar) (sub : StmtReader) :
    Nat → Parse (List (Arm Stmt) × Option (Block Stmt))
  | 0 => unexpected
  | bound + 1 => do
    if ← accept .elseWord then
      if (← currentKind) == .ifWord then
        let first ← arm grammar sub
        let (others, otherwise) ← otherArms grammar sub bound
        return (first :: others, otherwise)
      else
        let otherwise ← block sub
        return ([], some otherwise)
    else
      return ([], none)

/-- Reads a branch. -/
def branch (grammar : Grammar) (sub : StmtReader) : Parse Stmt := do
  let first ← arm grammar sub
  let (others, otherwise) ← bounded (otherArms grammar sub)
  return .branch first others otherwise

/-- Reads a loop with a condition. -/
def loop (grammar : Grammar) (sub : StmtReader) : Parse Stmt := do
  let only ← arm grammar sub
  return .loop only.condition only.body only.span

/-- Reads a loop that counts. -/
def range (grammar : Grammar) (sub : StmtReader) : Parse Stmt := do
  let opening ← advance
  let counter ← expect .identifier
  let _ ← expect .inWord
  let lower ← expr grammar .lowest
  let _ ← expect .dotDot
  let upper ← expr grammar .lowest
  let statements ← block sub
  return .range counter.value lower upper statements (opening.span.spanning upper.span)

/-- Reads a statement of a given form. -/
def stmtOf (grammar : Grammar) (sub : StmtReader) : StmtForm → Parse Stmt
  | .function => function sub
  | .ret => ret grammar
  | .bind => bind grammar
  | .branch => branch grammar sub
  | .loop => loop grammar sub
  | .range => range grammar sub
  | .block => do
    let inner ← block sub
    return .block inner

/-- Reads a statement that is nested less deeply than the bound. -/
def stmtWithin (grammar : Grammar) : Nat → Parse Stmt
  | 0 => unexpected
  | bound + 1 => do
    match grammar.stmt (← currentKind) with
    | some form => stmtOf grammar (orRecover (stmtWithin grammar bound)) form
    | none =>
      let value ← expr grammar .lowest
      return .expr value

/-- Reads a statement. -/
def stmt (grammar : Grammar) : Parse Stmt :=
  bounded (stmtWithin grammar)

/-- Reads a statement, or records why it cannot be read and moves on to the next line. -/
def stmtOrRecover (grammar : Grammar) : StmtReader :=
  orRecover (stmt grammar)

end Parse

end Quill
