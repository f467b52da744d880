import Quill.Proofs.Spans.Attempts
import Quill.Proofs.Spans.Programs
import Quill.Proofs.Tandem.Grammar
import Quill.Proofs.Tandem.Streams
import Quill.Proofs.TypeText

/-!
# Complaints about types

A program is told that a type was expected and another one was found.  The checker complains so only
of two types that differ, and nothing else complains so at all: neither the scanner nor the parser
knows of types.  As the text of a type tells the type, such a complaint always shows two different
texts.

That the parser never speaks of types is seen in two ways at once.  All problems that it finds are
of another phase than typing; and, as a property of a single run, a problem that speaks of types is
one of typing.  The second is kept by every reader of the grammar, because it is kept by a look at a
token: `Astray.kept_statements` makes a property of single runs out of the comparison of two.
-/

namespace Quill

/-! ### Reading -/

/-- Two runs that are never abreast: each of them has gone astray from the start, in any way. -/
def Tandem.apart : Tandem ⟨.still, .still⟩ where
  Mark := Astray
  left := id
  right := id
  alone _ := rfl
  abreast _ _ := False
  same _ _ := True
  sound := False.elim
  source := False.elim
  look := False.elim
  recover := False.elim

/-- What a look at a token keeps is kept by reading statements. -/
theorem Astray.kept_statements (astray : Astray) (bound : Nat) :
    astray.Kept (Parse.always (Parser.statements .standard bound)) := by
  have hstep : Tandem.apart.Step (Parse.always (Parser.statements .standard bound))
      (Parse.always (Parser.statements .standard bound)) :=
    .statements Grammar.standard_stopsAtEnd bound
  exact hstep.left astray

/-- A complaint about equal types could only be one of typing. -/
def Diagnostic.Tenable (diagnostic : Diagnostic) : Prop :=
  diagnostic.phase = .typing ∨ diagnostic.problem.TypesDiffer

theorem Diagnostic.tenable_of (problem : Problem) (span : Span) :
    (Diagnostic.of problem span).Tenable := by
  cases problem with
  | incorrectType expected received => exact .inl rfl
  | _ => exact .inr trivial

/-- No problem of scanning is about types. -/
theorem TokenStream.Covers.differ {file : String} {cursor : Cursor} {stream : TokenStream}
    (h : Covers file cursor stream) :
    ∀ scan ∈ stream.scans ++ [stream.final], Demand.types.MetBy scan.problems := by
  have hfiller : ∀ {rest offset gap reports}, Filler file rest offset gap reports →
      Demand.types.MetBy reports := by
    intro rest offset gap reports hfiller
    induction hfiller with
    | nil => exact .nil
    | blank _ _ ih => exact ih
    | comment _ _ _ ih => exact ih
    | stray _ _ _ ih => exact List.forall_mem_cons.2 ⟨trivial, ih⟩
  induction h with
  | ending _ hreports =>
      intro scan hscan
      obtain rfl := List.mem_singleton.1 hscan
      exact (hfiller hreports).append .nil
  | lexeme _ hreports _ _ ih =>
      refine List.forall_mem_cons.2 ⟨(hfiller hreports).append ?_, ih⟩
      -- The only problem with a lexeme is a string that is open.
      simp only [Scan.ofLexeme]
      split
      · split
        · exact .one trivial trivial
        · exact .nil
      · exact .nil

namespace Parser

/-- What was recorded is tenable, and so is what may still come into view. -/
structure Tenable (parser : Parser) : Prop where
  recorded : ∀ diagnostic ∈ parser.recorded, diagnostic.Tenable
  scans : ∀ scan ∈ parser.scans, ∀ problem ∈ scan.problems, problem.Tenable

namespace Tenable

variable {parser : Parser}

theorem advance (h : parser.Tenable) : parser.advance.Tenable where
  recorded := by
    refine List.forall_mem_append.2 ⟨h.recorded, fun problem hproblem => ?_⟩
    obtain ⟨scan, hscan, hmem⟩ := nextProblems_mem_scans hproblem
    exact h.scans scan hscan problem hmem
  scans := fun scan hscan => h.scans scan (parser.scans_advance.subset hscan)

theorem record {diagnostic : Diagnostic} (h : parser.Tenable) (hnew : diagnostic.Tenable) :
    (parser.record diagnostic).Tenable where
  recorded := List.forall_mem_append.2 ⟨h.recorded, List.forall_mem_singleton.2 hnew⟩
  scans := h.scans

theorem skip (h : parser.Tenable) (count : Nat) : (parser.skip count).Tenable := by
  induction count generalizing parser with
  | zero => exact h
  | succ count ih => exact ih h.advance

end Tenable

theorem tenable_ofText (file text : String) (source : Nat) :
    (ofText file text source).Tenable := by
  have hscans : ∀ scan ∈ (ofText file text source).scans, ∀ problem ∈ scan.problems,
      problem.Tenable := fun scan hscan problem hproblem =>
    .inr ((TokenStream.ofText_covers file text).differ scan hscan problem hproblem)
  refine ⟨fun diagnostic hdiagnostic => ?_, hscans⟩
  obtain ⟨scan, hscan, hmem⟩ := openingProblems_mem_scans hdiagnostic
  exact hscans scan hscan diagnostic hmem

end Parser

/-- A run that finds tenable problems only. -/
def Astray.tenable : Astray where
  lost := Parser.Tenable
  blamed := Diagnostic.Tenable
  advance h := h.advance
  blames problem _ := Diagnostic.tenable_of problem _
  recover before h hnew := by
    obtain ⟨count, hskip⟩ := Parser.recover_eq_skip before _
    rw [hskip]
    exact (h.record hnew).skip count

/-- Reading a text never leads to a complaint about equal types: it leads to none of typing. -/
theorem parse_differ (file text : String) (source : Nat) :
    Demand.types.MetBy (parse file text source).diagnostics := by
  intro diagnostic hdiagnostic
  have htenable : diagnostic.Tenable :=
    (Astray.tenable.kept_statements _ _ (Parser.tenable_ofText file text source)).recorded
      diagnostic hdiagnostic
  rw [parse_eq_readNoting] at hdiagnostic
  have hother : diagnostic.phase ≠ .typing := by
    simpa [Diagnostic.isNote] using (List.mem_filter.1 hdiagnostic).2
  exact htenable.resolve_left hother

/-! ### What is shown -/

/-- If the problem is about types, its message shows two different texts for them. -/
def Problem.TellsApart (problem : Problem) : Prop :=
  ∀ expected received, problem = .incorrectType expected received →
    problem.message =
        "Incorrect type; Expected '" ++ expected.text ++ "' but got '" ++ received.text ++ "'" ∧
      expected.text ≠ received.text

theorem Problem.TypesDiffer.tellsApart {problem : Problem} (h : problem.TypesDiffer) :
    problem.TellsApart := by
  rintro expected received rfl
  exact ⟨rfl, fun htext => h (Ty.eq_of_text_eq htext)⟩

/-- For types that differ, any place in a program may be blamed. -/
theorem Demand.types_everywhere (stmt : Stmt) :
    stmt.Everywhere (Expr.AllSpans Demand.types.blamed) Demand.types.blamed :=
  stmt.everywhere_of_forall (fun _ _ _ => trivial) fun _ => trivial

/-- Everything that reading and checking sources leads to. -/
theorem differ_analyze (sources : List Source) : Demand.types.MetBy (analyze sources).diagnostics :=
  metBy_analyze (fun source _ number => parse_differ source.name source.contents number)
    fun stmt _ => Demand.types_everywhere stmt

/-- Types that are shown by the same text are the same, however deep they are.  So a complaint about
types never shows one text for both of them: none that checking adds, whatever the program and the
state of the checker, and none at all that reading and checking sources leads to. -/
theorem types_told_by_text :
    (∀ type other : Ty, type.text = other.text → type = other) ∧
    (∀ (program : List Stmt) (checker : Checker), ∃ after problems,
      Check.program program checker = .ok () after ∧
        after.recorded = checker.recorded ++ problems ∧
        ∀ diagnostic ∈ problems, diagnostic.problem.TellsApart) ∧
    ∀ sources : List Source, ∀ diagnostic ∈ (analyze sources).diagnostics,
      diagnostic.problem.TellsApart := by
  refine ⟨fun _ _ => Ty.eq_of_text_eq, fun program checker => ?_, fun sources => ?_⟩
  · have hadds : Check.Adds .types (Check.program program) :=
      Check.adds_program fun stmt _ => Demand.types_everywhere stmt
    obtain ⟨after, problems, hrun, hadded, hproblems⟩ := hadds checker
    exact ⟨after, problems, hrun, hadded, fun diagnostic hdiagnostic =>
      (hproblems diagnostic hdiagnostic).tellsApart⟩
  · exact fun diagnostic hdiagnostic =>
      (differ_analyze sources diagnostic hdiagnostic).tellsApart

/-- Two built-in functions that take any arguments are told apart by their results. -/
theorem builtins_told_by_text :
    let sources : List Source := [⟨"main", "let f = print f = len"⟩]
    (analyze sources).diagnostics.map (·.problem) =
        [.incorrectType (.variadic .void) (.variadic .int)] ∧
      (Problem.incorrectType (.variadic .void) (.variadic .int)).TellsApart := by
  intro sources
  have hproblems : (analyze sources).diagnostics.map (·.problem) =
      [.incorrectType (.variadic .void) (.variadic .int)] := by decide +kernel
  obtain ⟨diagnostic, hdiagnostic, hproblem⟩ : ∃ diagnostic ∈ (analyze sources).diagnostics,
      diagnostic.problem = .incorrectType (.variadic .void) (.variadic .int) :=
    List.mem_map.1 (hproblems ▸ List.mem_singleton_self _)
  have hapart := types_told_by_text.2.2 sources diagnostic hdiagnostic
  rw [hproblem] at hapart
  exact ⟨hproblems, hapart⟩

end Quill
