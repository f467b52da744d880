import Mathlib.Data.List.Nodup
import Quill.Program
import Quill.Proofs.Blame
import Quill.Proofs.Lines
import Quill.Proofs.Spans.Statements

/-!
# The spans of programs

Whatever sources a program is made of, every span that reading and checking it gives is a stretch of
the text of one of these sources.  If no two sources have the same name, a report finds that text.
It shows the line in which the stretch starts, and puts one caret under each character of the
stretch, and at least one.
-/

namespace Quill

namespace Text

/-- A cut behind a front part is a cut of the rest. -/
theorem splitAtOffset_add (front rest : List Char) (count : Nat) :
    splitAtOffset (byteLength front + count) (front ++ rest) =
      (front ++ (splitAtOffset count rest).1, (splitAtOffset count rest).2) := by
  induction front with
  | nil => simp
  | cons c front ih =>
      rw [List.cons_append, byteLength_cons, splitAtOffset, if_pos (by omega)]
      have hrest : c.utf8Size + byteLength front + count - c.utf8Size =
          byteLength front + count := by
        omega
      rw [hrest, ih]
      rfl

end Text

/-- A span that fits a text cuts it into three parts. -/
theorem Span.Fits.parts {file : String} {text : List Char} {span : Span}
    (h : span.Fits file text) :
    ∃ front blamed back, text = front ++ (blamed ++ back) ∧
      span.start.offset = Text.byteLength front ∧
      span.stop.offset = Text.byteLength front + Text.byteLength blamed := by
  have hstart := beq_iff_eq.1 h.starts
  have hstop := beq_iff_eq.1 h.stops
  have hordered := h.ordered
  have htext := Text.splitAtOffset_append span.start.offset text
  generalize Text.splitAtOffset span.start.offset text = cut at hstart htext
  obtain ⟨front, rest⟩ := cut
  simp only at hstart htext
  -- The second cut is made in what is behind the first one.
  have hrest := Text.splitAtOffset_append (span.stop.offset - span.start.offset) rest
  have hcut := Text.splitAtOffset_add front rest (span.stop.offset - span.start.offset)
  rw [hstart, Nat.add_sub_cancel' hordered, htext] at hcut
  rw [hcut, Text.byteLength_append] at hstop
  exact ⟨front, _, _, by rw [hrest, htext], hstart.symm, hstop.symm⟩

/-- The number of carets is the number of characters blamed, and at least one. -/
theorem caretCount_eq {contents : String} {span : Span} {front blamed back : List Char}
    (htext : contents.toList = front ++ (blamed ++ back))
    (hstart : span.start.offset = Text.byteLength front)
    (hstop : span.stop.offset = Text.byteLength front + Text.byteLength blamed) :
    caretCount contents span = max 1 blamed.length := by
  rw [caretCount, htext, hstart, hstop, Text.slice?_between]
  exact Nat.max_comm _ _

/-- Sources with different names are found by their names. -/
theorem contentsOf_eq {sources : List Source} (hnames : (sources.map (·.name)).Nodup)
    {source : Source} (hsource : source ∈ sources) :
    contentsOf sources source.name = source.contents := by
  rw [contentsOf]
  split
  · next found hfound =>
      have hname : found.name = source.name := by
        simpa using List.find?_some hfound
      have hmem := List.mem_reverse.1 (List.mem_of_find?_eq_some hfound)
      rw [List.inj_on_of_nodup_map hnames hmem hsource hname]
  · next hnone =>
      have hmissing := List.find?_eq_none.1 hnone source (List.mem_reverse.2 hsource)
      simp at hmissing

/-- What is read of a text is well spanned, and what is recorded fits it. -/
theorem parse_spanned (file text : String) (source : Nat) :
    (∀ stmt ∈ (parse file text source).statements, stmt.Spanned file text.toList) ∧
      (Demand.spans (Span.Fits file text.toList)).MetBy (parse file text source).diagnostics := by
  obtain ⟨hleads, -, hstmts⟩ := Parser.readNoting_follows file text source
  obtain ⟨added, hadded⟩ := hleads.adds
  rw [parse_eq_readNoting]
  refine ⟨hstmts, ?_⟩
  intro diagnostic hdiagnostic
  obtain ⟨hmem, hplain⟩ := List.mem_filter.1 hdiagnostic
  rw [hadded.recorded] at hmem
  rcases List.mem_append.1 hmem with hmem | hmem
  · exact (Parser.scanned_ofText file text source diagnostic hmem).1
  · exact hadded.fits diagnostic hmem (by simpa using hplain)

/-- Every source is read by itself. -/
theorem eq_parse_of_mem_parseFrom {sources : List Source} {first : Nat} {parsed : Parsed}
    (h : parsed ∈ parseFrom first sources) :
    ∃ source ∈ sources, ∃ number, parsed = parse source.name source.contents number := by
  induction sources generalizing first with
  | nil => cases h
  | cons source sources ih =>
      rw [parseFrom, List.mem_cons] at h
      rcases h with rfl | h
      · exact ⟨source, List.mem_cons_self, first, rfl⟩
      · obtain ⟨other, hother, number, hparsed⟩ := ih h
        exact ⟨other, List.mem_cons_of_mem _ hother, number, hparsed⟩

/-- The span fits one of the sources. -/
def Span.FitsSome (sources : List Source) (span : Span) : Prop :=
  ∃ source ∈ sources, span.Fits source.name source.contents.toList

/-- Checking adds nothing to the statements, and comes to an end. -/
theorem analyze_eq (sources : List Source) : ∃ checker,
    Check.program ((parseFrom 0 sources).flatMap (·.statements))
      { Checker.start with recorded := (parseFrom 0 sources).flatMap (·.diagnostics) } =
        .ok () checker ∧
    analyze sources =
      ⟨(parseFrom 0 sources).flatMap (·.statements), checker.recorded, none⟩ := by
  obtain ⟨_, _, _, hrun⟩ := Check.tidy_program ((parseFrom 0 sources).flatMap (·.statements))
    { Checker.start with recorded := (parseFrom 0 sources).flatMap (·.diagnostics) }
  refine ⟨_, hrun, ?_⟩
  rw [analyze, checkStatements, hrun]

/-- Every statement of a program is well spanned by one of its sources. -/
theorem statements_spanned (sources : List Source) :
    ∀ stmt ∈ (parseFrom 0 sources).flatMap (·.statements), ∃ source ∈ sources,
      stmt.Spanned source.name source.contents.toList := by
  intro stmt hstmt
  obtain ⟨parsed, hparsed, hmem⟩ := List.mem_flatMap.1 hstmt
  obtain ⟨source, hsource, number, rfl⟩ := eq_parse_of_mem_parseFrom hparsed
  exact ⟨source, hsource, (parse_spanned _ _ _).1 stmt hmem⟩

/-- A demand is met by the problems of a program if those of reading meet it and if all spans of the
program may be blamed. -/
theorem metBy_analyze {demand : Demand} {sources : List Source}
    (hread : ∀ source ∈ sources, ∀ number,
      demand.MetBy (parse source.name source.contents number).diagnostics)
    (hspans : ∀ stmt ∈ (parseFrom 0 sources).flatMap (·.statements),
      stmt.Everywhere (Expr.AllSpans demand.blamed) demand.blamed) :
    demand.MetBy (analyze sources).diagnostics := by
  obtain ⟨checker, hrun, hanalyze⟩ := analyze_eq sources
  obtain ⟨after, problems, hrun', hadded, hproblems⟩ := Check.adds_program hspans
    { Checker.start with recorded := (parseFrom 0 sources).flatMap (·.diagnostics) }
  obtain rfl : after = checker := (EStateM.Result.ok.inj (hrun'.symm.trans hrun)).2
  rw [hanalyze]
  simp only [hadded]
  refine Demand.MetBy.append (.flatMap fun parsed hparsed => ?_) hproblems
  obtain ⟨source, hsource, number, rfl⟩ := eq_parse_of_mem_parseFrom hparsed
  exact hread source hsource number

/-- Every problem of a program blames a stretch of one of its sources. -/
theorem diagnostics_fit (sources : List Source) :
    (Demand.spans (Span.FitsSome sources)).MetBy (analyze sources).diagnostics := by
  apply metBy_analyze
  · intro source hsource number diagnostic hdiagnostic
    exact ⟨source, hsource, (parse_spanned _ _ _).2 diagnostic hdiagnostic⟩
  · intro stmt hstmt
    obtain ⟨source, hsource, hspanned⟩ := statements_spanned sources stmt hstmt
    exact hspanned.mono (fun expr hexpr span hspan => ⟨source, hsource, hexpr.fits span hspan⟩)
      fun span hspan => ⟨source, hsource, hspan⟩

/-- The problem blames a stretch of the text of a source.  A report finds that text.  It names the
source and the place where the stretch starts, tells the problem and shows the line with that place;
under the line, behind a blank for each character in front of the place, it has a caret for each
character of the stretch, and at least one. -/
structure Diagnostic.Reported (sources : List Source) (source : Source) (diagnostic : Diagnostic) :
    Prop where
  fits : diagnostic.span.Fits source.name source.contents.toList
  found : contentsOf sources diagnostic.span.file = source.contents
  shown : ∃ front blamed back line, source.contents.toList = front ++ (blamed ++ back) ∧
    diagnostic.span.start.offset = Text.byteLength front ∧
    diagnostic.span.stop.offset = Text.byteLength front + Text.byteLength blamed ∧
    caretCount source.contents diagnostic.span = max 1 blamed.length ∧
    Text.LinePosition.Tells source.contents (Text.byteLength front) line ∧
    diagnostic.render sources =
      fileTitle source.name ++ ":" ++ toString line.number ++ ":" ++ toString (line.column + 1)
        ++ ": " ++ diagnostic.problem.message ++ "\n" ++ line.text ++ "\n"
        ++ String.ofList (List.replicate line.column ' ')
        ++ String.ofList (List.replicate (max 1 blamed.length) '^')

/-- If no two sources have the same name, a problem that blames a stretch of one of them is reported
there. -/
theorem Span.Fits.reported {sources : List Source} (hnames : (sources.map (·.name)).Nodup)
    {source : Source} (hsource : source ∈ sources) {diagnostic : Diagnostic}
    (hfits : diagnostic.span.Fits source.name source.contents.toList) :
    diagnostic.Reported sources source := by
  have hfile : diagnostic.span.file = source.name := by
    rw [hfits.inFile]
    rfl
  have hfound : contentsOf sources source.name = source.contents := contentsOf_eq hnames hsource
  obtain ⟨front, blamed, back, htext, hstart, hstop⟩ := hfits.parts
  have hcarets : caretCount source.contents diagnostic.span = max 1 blamed.length :=
    caretCount_eq htext hstart hstop
  have hline := Text.lineAt_tells source.contents (Text.byteLength front)
  rw [htext, Text.splitAtOffset_front] at hline
  refine ⟨hfits, hfile ▸ hfound, front, blamed, back, _, htext, hstart, hstop, hcarets, hline, ?_⟩
  simp only [Diagnostic.render, hfile, hfound, hstart, hcarets]

/-- For all sources with different names, every statement that is read has spans that fit its
source, where the spans of subexpressions lie inside those of the expressions around them, and every
problem found in reading and checking blames a stretch of a source, which a report finds, shows and
underlines with carets. -/
theorem analyze_spans_fit (sources : List Source) (hnames : (sources.map (·.name)).Nodup) :
    (∀ stmt ∈ (analyze sources).statements, ∃ source ∈ sources,
      stmt.Spanned source.name source.contents.toList) ∧
    ∀ diagnostic ∈ (analyze sources).diagnostics, ∃ source ∈ sources,
      diagnostic.Reported sources source := by
  constructor
  · obtain ⟨checker, -, hanalyze⟩ := analyze_eq sources
    rw [hanalyze]
    exact statements_spanned sources
  · intro diagnostic hdiagnostic
    obtain ⟨source, hsource, hfits⟩ := diagnostics_fit sources diagnostic hdiagnostic
    exact ⟨source, hsource, hfits.reported hnames hsource⟩

/-- Two sources with problems of scanning, parsing and checking. -/
theorem two_sources_spans_fit :
    let sources : List Source := [⟨"one", "let x = [\"é"⟩, ⟨"two", "x + y"⟩]
    (sources.map (·.name)).Nodup ∧
      (analyze sources).statements.length = 1 ∧ (analyze sources).diagnostics.length = 5 ∧
      (∀ stmt ∈ (analyze sources).statements, ∃ source ∈ sources,
        stmt.Spanned source.name source.contents.toList) ∧
      ∀ diagnostic ∈ (analyze sources).diagnostics, ∃ source ∈ sources,
        diagnostic.Reported sources source :=
  ⟨by decide, by decide +kernel, by decide +kernel, analyze_spans_fit _ (by decide)⟩

end Quill
