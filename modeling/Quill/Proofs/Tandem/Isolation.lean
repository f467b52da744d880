import Mathlib.Data.List.TakeWhile
import Quill.Proofs.Tandem.Seams

/-!
# A bad line costs only itself

A line that cannot be read is given up, and the parser goes on at the next line as if it began
there.  The line is read in lockstep with the line alone, unless the line alone is read to its end;
what follows is read in lockstep with the following text alone, with all places moved on.
-/

namespace Quill

/-- The streams of a line, of a text and of the text behind the line, all without problems. -/
structure Joint (bytes : Nat) (line text joined : TokenStream) : Prop extends
    Seam bytes line text joined where
  quietLine : line.Quiet
  endsLine : line.Ends
  flat : ∀ scan ∈ line.scans, scan.token.startsLine = false

/-- A line and a text that are scanned without problems. -/
theorem Joint.ofTexts {file line text : String} (hline : '\n' ∉ line.toList)
    (hquiet : (TokenStream.ofText file line).diagnostics = [])
    (hquiet' : (TokenStream.ofText file text).diagnostics = []) :
    Joint (Text.byteLength line.toList + 1) (.ofText file line) (.ofText file text)
      (.ofText file (line ++ "\n" ++ text)) where
  toSeam := Seam.ofTexts hquiet hquiet'
  quietLine := TokenStream.quiet_of_diagnostics hquiet
  endsLine := TokenStream.ofText_ends file line
  flat := TokenStream.startsLine_ofText hline hquiet

/-! ### The line -/

/-- Where no token starts a line, a statement is given up to the end. -/
theorem Parser.On.recover_flat {stream : TokenStream} {parser : Parser} (h : parser.On stream)
    (hflat : ∀ scan ∈ stream.scans, scan.token.startsLine = false) (before : Nat) :
    (parser.recover before).On ⟨[], stream.final⟩ := by
  have hskipped : ∀ {moved : Parser}, moved.On stream →
      (moved.skip moved.restOfLine).On ⟨[], stream.final⟩ := by
    intro moved hmoved
    have hrest : moved.restOfLine = moved.remaining := by
      rw [Parser.restOfLine, List.takeWhile_eq_self_iff.2]
      · rfl
      · intro scan hscan
        rw [hmoved.ahead] at hscan
        rw [hflat scan (List.mem_of_mem_drop hscan)]
        rfl
    refine ⟨(hmoved.skip _).final, ?_⟩
    rw [(hmoved.skip _).ahead, consumed_skip, hrest, hmoved.remaining, List.drop_nil,
      List.drop_eq_nil_iff]
    omega
  rw [recover]
  split
  · exact hskipped h.advance
  · exact hskipped h

section

variable {bytes : Nat} {line text joined : TokenStream}

/-- A line alone and the line in front of a text are read in lockstep, until the line alone is at
its end. -/
def Tandem.inLine (h : Joint bytes line text joined) : Tandem ⟨.still, .still⟩ where
  Mark := Unit
  left _ := .ended line.final
  right _ := .anywhere
  alone _ := rfl
  abreast := Parser.Lockstep line joined
  same := Eq
  sound habreast := ⟨habreast.on.sound h.endsLine, habreast.on'.sound h.ends⟩
  source habreast := habreast.source
  look habreast := (habreast.look h.toSeam h.quietLine).imp (·.2) fun hend => ⟨(), hend.2, trivial⟩
  recover _ hnext _ _ := .inr ⟨(), (hnext.on.record _).recover_flat h.flat _, trivial⟩

/-- The rest of the line, in front of the text. -/
theorem Parser.On.consumed_restOfLine {parser : Parser} (h : parser.On joined)
    (hjoint : Joint bytes line text joined)
    (hplace : parser.consumed ≤ line.scans.length) :
    (parser.skip parser.restOfLine).consumed = line.scans.length := by
  have hline : ∀ flag ∈ (line.scans.map (·.token.startsLine)).drop parser.consumed,
      (!flag) = true := by
    intro flag hflag
    obtain ⟨scan, hscan, rfl⟩ := List.mem_map.1 (List.mem_of_mem_drop hflag)
    rw [hjoint.flat scan hscan]
    rfl
  have htext : ((text.scans.map (·.token.startsLine)).modifyHead fun _ => true).takeWhile (!·) =
      [] := by
    cases text.scans with
    | nil => rfl
    | cons first others => rfl
  have hlength : parser.consumed ≤ (line.scans.map (·.token.startsLine)).length := by
    rwa [List.length_map]
  rw [consumed_skip, h.restOfLine, hjoint.lines, List.drop_append_of_le_length hlength,
    List.takeWhile_append_of_pos hline, htext, List.append_nil, List.length_drop, List.length_map]
  omega

/-- Giving up the line leads to the start of the text. -/
theorem Parser.On.recover_to_text {parser : Parser} (h : parser.On joined)
    (hjoint : Joint bytes line text joined) (hsome : 0 < line.scans.length)
    (hplace : parser.consumed ≤ line.scans.length) :
    (parser.recover 0).consumed = line.scans.length := by
  rw [recover]
  split
  · next hfirst =>
      rw [Bool.and_eq_true, beq_iff_eq] at hfirst
      refine h.advance.consumed_restOfLine hjoint ?_
      rw [consumed_advance, hfirst.1]
      exact hsome
  · exact h.consumed_restOfLine hjoint hplace

end

/-- If nothing of a text is read and only one problem is recorded, then that problem was found in
its first statement. -/
theorem Parser.stmt_of_failed {parser : Parser} {problem : Diagnostic} (hsound : parser.Sound)
    (hclear : parser.recorded = [])
    (hnone : (parser.statements .standard (parser.remaining + 1)).1 = [])
    (hproblem : (parser.statements .standard (parser.remaining + 1)).2.recorded = [problem]) :
    parser.atEnd = false ∧ ∃ next, Parse.stmt .standard parser = .error problem next := by
  have hgrammar := Grammar.standard_stopsAtEnd
  have hunrolls : Parse.Unrolls (statementsStep .standard) (statements .standard) := fun _ => rfl
  cases hend : parser.atEnd with
  | true =>
      rw [statements, if_pos hend, hclear] at hproblem
      cases hproblem
  | false =>
      refine ⟨rfl, ?_⟩
      cases hstmt : Parse.stmt .standard parser with
      | ok stmt next =>
          have hfirst : Parse.stmtOrRecover .standard parser = (some stmt, next) := by
            rw [Parse.stmtOrRecover, Parse.orRecover, hstmt]
          rw [statements_of_more hend hfirst] at hnone
          cases hnone
      | error diagnostic next =>
          have hfirst : Parse.stmtOrRecover .standard parser =
              (none, (next.record diagnostic).recover parser.consumed) := by
            rw [Parse.stmtOrRecover, Parse.orRecover, hstmt]
          obtain ⟨-, hreaches, hfewer⟩ := Parse.alike_orRecover hsound hend
            (.bounded (Parse.alike_stmtWithin_self hgrammar hsound _))
          change parser.Reaches (Parse.stmtOrRecover .standard parser).2 at hreaches
          change (Parse.stmtOrRecover .standard parser).2.remaining < _ at hfewer
          rw [hfirst] at hreaches hfewer
          have hothers := (alike_statements hgrammar hunrolls hunrolls (hreaches.sound hsound)
            hfewer hfewer).2.1.recorded_isPrefix
          rw [statements_of_more hend hfirst] at hproblem
          obtain ⟨rest, hrest⟩ :=
            (recorded_isPrefix_recover _ (next.record diagnostic)).trans hothers
          have hlist : next.recorded ++ [diagnostic] ++ rest = [problem] := hrest.trans hproblem
          have hlength := congrArg List.length hlist
          simp only [List.length_append, List.length_singleton] at hlength
          have hbefore : next.recorded = [] := List.length_eq_zero_iff.1 (by omega)
          rw [hbefore] at hlist
          obtain ⟨rfl, -⟩ := List.cons.inj hlist
          exact ⟨next, rfl⟩

section Joint

variable {bytes : Nat} {line text joined : TokenStream} (h : Joint bytes line text joined)

include h

/-- A statement that fails within the line fails in the same way in front of the text. -/
theorem Joint.stmt_of_failed {source : Nat} {problem : Diagnostic} {next : Parser}
    (hstmt : Parse.stmt .standard (.start line source) = .error problem next)
    (hinside : problem.span ≠ line.final.token.span) :
    ∃ next', Parse.stmt .standard (.start joined source) = .error problem next' ∧
      Parser.Lockstep line joined next next' := by
  have hstep : (Tandem.inLine h).Step _ _ := .stmt Grammar.standard_stopsAtEnd
  have hruns := hstep.both _ _ (.start h.quietLine h.quiet source)
  rw [hstmt] at hruns
  rcases hruns with hmeet | ⟨_, ⟨-, hblamed⟩, -⟩
  · generalize Parse.stmt .standard (Parser.start joined source) = ended at hmeet
    cases hmeet with
    | error hsame hnext => exact ⟨_, by rw [hsame], hnext⟩
  · exact absurd hblamed hinside

/-- Giving up the line, the parser stands in front of the text as if the text began there. -/
theorem Joint.stmtOrRecover_of_failed {source : Nat} {problem : Diagnostic} {next : Parser}
    (hstmt : Parse.stmt .standard (.start line source) = .error problem next)
    (hinside : problem.span ≠ line.final.token.span) (hsome : 0 < line.scans.length) :
    ∃ last, Parse.stmtOrRecover .standard (.start joined source) = (none, last) ∧
      Parser.Trails bytes line text joined [problem] (.start text source) last := by
  have hsound := (Parser.On.start line source).sound h.endsLine
  obtain ⟨next', hstmt', hlockstep⟩ := h.stmt_of_failed hstmt hinside
  obtain ⟨hreaches, -⟩ : (Parser.start line source).Reaches next ∧ _ := by
    have hends := (Parse.alike_stmtWithin_self Grammar.standard_stopsAtEnd hsound
      ((Parser.start line source).remaining + 1)).ends
    change Parse.EndsWell _ _ (Parse.stmt .standard (.start line source)) at hends
    rwa [hstmt] at hends
  have hplace : next'.consumed ≤ line.scans.length := by
    have hsum := hreaches.consumed_add_remaining hsound
    have hstart : (Parser.start line source).consumed = 0 := rfl
    have hall : (Parser.start line source).remaining = line.scans.length := rfl
    have hsame := hlockstep.place
    omega
  have hon := hlockstep.on'.record problem
  have hconsumed := hon.recover_to_text h hsome hplace
  refine ⟨(next'.record problem).recover 0, ?_, ?_⟩
  · rw [Parse.stmtOrRecover, Parse.orRecover, hstmt']
    rfl
  obtain ⟨count, hskip⟩ := Parser.recover_eq_skip 0 (next'.record problem)
  rw [hskip] at hconsumed ⊢
  refine ⟨.start text _, hon.skip count, ?_, ?_, ?_⟩
  · rw [hconsumed]
    exact (Nat.zero_add _).symm
  · rw [Parser.source_skip]
    exact hreaches.source_eq.symm.trans hlockstep.source
  · rw [hon.recorded_skip h.quiet, Parser.recorded_start h.quietText, Parser.record,
      hlockstep.clear']
    rfl

/-- In front of a text, a line whose first statement fails within it adds just its problem. -/
theorem Joint.statements_of_failed {source : Nat} {problem : Diagnostic} {next : Parser}
    (hstmt : Parse.stmt .standard (.start line source) = .error problem next)
    (hinside : problem.span ≠ line.final.token.span) (hsome : 0 < line.scans.length) :
    let whole := Parser.start joined source
    let alone := Parser.start text source
    (whole.statements .standard (whole.remaining + 1)).1 =
        (alone.statements .standard (alone.remaining + 1)).1.map (·.moved (.shift bytes)) ∧
      (whole.statements .standard (whole.remaining + 1)).2.recorded =
        problem :: (alone.statements .standard (alone.remaining + 1)).2.recorded.map
          (·.moved (.shift bytes)) := by
  intro whole alone
  have hlength := h.length_eq
  have hwhole : whole.remaining = joined.scans.length := rfl
  have halone : alone.remaining = text.scans.length := rfl
  have hmore : whole.atEnd = false :=
    ((Parser.On.start joined source).sound h.ends).atEnd_of_remaining_pos
      (show 0 < joined.scans.length by omega)
  obtain ⟨last, hlast, htrails⟩ := h.stmtOrRecover_of_failed hstmt hinside hsome
  have hleft : last.remaining = alone.remaining := htrails.remaining h.toSeam
  have hbound := Parser.statements_settled Grammar.standard_stopsAtEnd (htrails.on'.sound h.ends)
    (show last.remaining < whole.remaining by omega)
  rw [hleft] at hbound
  rw [Parser.statements_of_more hmore hlast, hbound]
  exact h.statements_of_trails htrails _

end Joint

/-- A bad line costs only itself.  Let a line without problems of scanning be read as no statement
and one problem of parsing, which is found before the end of the line.  In front of a text without
problems of scanning, the line adds just this problem: the statements and the other problems are
those of the text, moved on by the line and its newline. -/
theorem parse_behind_failed_line (file line text : String) (source : Nat) (problem : Diagnostic)
    (hline : '\n' ∉ line.toList) (hquiet : (TokenStream.ofText file line).diagnostics = [])
    (hquiet' : (TokenStream.ofText file text).diagnostics = [])
    (hnone : (parse file line source).statements = [])
    (hproblem : (parse file line source).diagnostics = [problem])
    (hbefore : problem.span.start.offset <
      (TokenStream.ofText file line).final.token.span.start.offset) :
    let move := Relocation.shift (Text.byteLength line.toList + 1)
    parse file (line ++ "\n" ++ text) source =
      ⟨(parse file text source).statements.map (·.moved move),
        problem :: (parse file text source).diagnostics.map (·.moved move)⟩ := by
  intro move
  have hjoint := Joint.ofTexts hline hquiet hquiet'
  have hsound : (Parser.ofText file line source).Sound :=
    (Parser.On.start _ source).sound hjoint.endsLine
  obtain ⟨hmore, next, hstmt⟩ := Parser.stmt_of_failed hsound
    (Parser.recorded_start hjoint.quietLine source) hnone hproblem
  have hinside : problem.span ≠ (TokenStream.ofText file line).final.token.span := by
    intro hspan
    rw [hspan] at hbefore
    exact Nat.lt_irrefl _ hbefore
  have hsome : 0 < (TokenStream.ofText file line).scans.length := hsound.remaining_pos hmore
  obtain ⟨hstatements, hrecorded⟩ := hjoint.statements_of_failed hstmt hinside hsome
  unfold parse Parser.ofText
  rw [Parsed.mk.injEq]
  exact ⟨hstatements, hrecorded⟩

/-- A line with a missing name, in front of a good line and another bad one. -/
theorem parse_behind_missing_name :
    let line := "  let = 1 // no name"
    let text := "let x = 2\nfn (\nx"
    let problem := Diagnostic.of (.unexpectedToken "=") (.within "a" 6 7)
    '\n' ∉ line.toList ∧ (TokenStream.ofText "a" line).diagnostics = [] ∧
    (TokenStream.ofText "a" text).diagnostics = [] ∧ (parse "a" line 0).statements = [] ∧
    (parse "a" line 0).diagnostics = [problem] ∧
    problem.span.start.offset < (TokenStream.ofText "a" line).final.token.span.start.offset ∧
    parse "a" (line ++ "\n" ++ text) 0 =
      ⟨(parse "a" text 0).statements.map (·.moved (.shift 21)),
        problem :: (parse "a" text 0).diagnostics.map (·.moved (.shift 21))⟩ := by
  have hline : '\n' ∉ "  let = 1 // no name".toList := by decide +kernel
  have hquiet : (TokenStream.ofText "a" "  let = 1 // no name").diagnostics = [] := by
    decide +kernel
  have hquiet' : (TokenStream.ofText "a" "let x = 2\nfn (\nx").diagnostics = [] := by decide +kernel
  have hnone : (parse "a" "  let = 1 // no name" 0).statements = [] := by decide +kernel
  have hproblem : (parse "a" "  let = 1 // no name" 0).diagnostics =
      [.of (.unexpectedToken "=") (.within "a" 6 7)] := by decide +kernel
  have hbefore :
      6 < (TokenStream.ofText "a" "  let = 1 // no name").final.token.span.start.offset := by
    decide +kernel
  exact ⟨hline, hquiet, hquiet', hnone, hproblem, hbefore,
    parse_behind_failed_line "a" "  let = 1 // no name" "let x = 2\nfn (\nx" 0 _ hline hquiet
      hquiet' hnone hproblem hbefore⟩

end Quill
