import Quill.Proofs.Scanning.Joining
import Quill.Proofs.Tandem.Grammar
import Quill.Proofs.Tandem.Streams

/-!
# Two texts and the seam between them

A text is read alone, and it is read in front of another text, or behind one.  In front of another
text it is read in lockstep with the text alone, as long as the text alone is not at its end
(`Parser.Lockstep.look`).  Behind another text it is read in lockstep with the text alone from its
first token on, with all places moved on (`Seam.statements_of_trails`).
-/

namespace Quill

namespace TokenStream.Joins

variable {bytes : Nat} {front text joined : TokenStream} (h : Joins bytes front text joined)

include h

theorem length_eq : joined.scans.length = front.scans.length + text.scans.length := by
  simpa using congrArg List.length h.scans

theorem tokenAt_front {place : Nat} (hplace : place < front.scans.length) :
    (front.tokenAt place).moved .still = (joined.tokenAt place).moved .still := by
  have hscans := congrArg (·[place]?) h.scans
  simp only [List.getElem?_map, List.getElem?_append_left, List.length_map, hplace,
    List.getElem?_eq_getElem hplace, Option.map_some] at hscans
  obtain ⟨scan, hscan, hmoved⟩ := Option.map_eq_some_iff.1 hscans
  rw [tokenAt, tokenAt, hscan, List.getElem?_eq_getElem hplace]
  exact hmoved.symm

theorem tokenAt_text (place : Nat) :
    (text.tokenAt place).moved (.shift bytes) =
      (joined.tokenAt (place + front.scans.length)).moved .still := by
  have hscans := congrArg (·[place + front.scans.length]?) h.scans
  simp only [List.getElem?_map] at hscans
  rw [List.getElem?_append_right (by simp), List.length_map, Nat.add_sub_cancel,
    List.getElem?_map] at hscans
  rw [tokenAt, tokenAt]
  cases hplace : text.scans[place]? with
  | none =>
      rw [hplace, Option.map_none, Option.map_eq_none_iff] at hscans
      rw [hscans]
      exact h.final.symm
  | some scan =>
      rw [hplace, Option.map_some] at hscans
      obtain ⟨other, hother, hmoved⟩ := Option.map_eq_some_iff.1 hscans
      rw [hother]
      exact hmoved.symm

end TokenStream.Joins

/-- The streams of two texts and of the second text behind the first one, where scanning finds no
problem in the second text and none in both together. -/
structure Seam (bytes : Nat) (front text joined : TokenStream) : Prop extends
    TokenStream.Joins bytes front text joined where
  quietText : text.Quiet
  quiet : joined.Quiet
  endsText : text.Ends
  ends : joined.Ends

/-- Two texts that are scanned without problems, with a newline between them. -/
theorem Seam.ofTexts {file front text : String}
    (hquiet : (TokenStream.ofText file front).diagnostics = [])
    (hquiet' : (TokenStream.ofText file text).diagnostics = []) :
    Seam (Text.byteLength front.toList + 1) (.ofText file front) (.ofText file text)
      (.ofText file (front ++ "\n" ++ text)) := by
  obtain ⟨hjoins, hjoined⟩ := TokenStream.ofText_joins hquiet hquiet'
  exact
    { hjoins with
      quietText := TokenStream.quiet_of_diagnostics hquiet'
      quiet := TokenStream.quiet_of_diagnostics hjoined
      endsText := TokenStream.ofText_ends file text
      ends := TokenStream.ofText_ends file _ }

/-! ### In front of the seam -/

/-- A run that has come to the end of its text. -/
def Astray.ended (final : Scan) : Astray where
  lost := Parser.On ⟨[], final⟩
  blamed diagnostic := diagnostic.span = final.token.span
  advance h := h.advance
  blames problem h := by
    rw [h.current]
    rfl
  recover before h _ := by
    obtain ⟨count, hskip⟩ := Parser.recover_eq_skip before _
    rw [hskip]
    exact (h.record _).skip count

/-- A run of which nothing is known. -/
def Astray.anywhere : Astray where
  lost _ := True
  blamed _ := True
  advance := id
  blames _ _ := trivial
  recover _ _ _ := trivial

section

variable {bytes : Nat} {front text joined : TokenStream}

/-- A text alone and in front of another one: before the end of the first text the two runs see the
same token, and at its end the run over the text alone stays there. -/
theorem Parser.Lockstep.look {parser parser' : Parser} (h : Lockstep front joined parser parser')
    (hseam : Seam bytes front text joined) (hquiet : front.Quiet) :
    (parser.consumed < front.scans.length ∧
      Pairing.Matched ⟨.still, .still⟩ parser.current parser'.current ∧
      Lockstep front joined parser.advance parser'.advance ∧
      ∀ problem, Diagnostic.of problem parser.current.span = .of problem parser'.current.span) ∨
    (front.scans.length ≤ parser.consumed ∧ parser.On ⟨[], front.final⟩) := by
  rcases Nat.lt_or_ge parser.consumed front.scans.length with hplace | hend
  · left
    have hmatched : parser.current.moved .still = parser'.current.moved .still := by
      rw [h.on.current, h.on'.current, ← h.place]
      exact hseam.tokenAt_front hplace
    have hspan : (parser.current.moved .still).span = (parser'.current.moved .still).span :=
      congrArg Token.span hmatched
    exact ⟨hplace, hmatched, h.advance hquiet hseam.quiet,
      fun problem => congrArg (Diagnostic.of problem) hspan⟩
  · right
    refine ⟨hend, h.on.final, ?_⟩
    rw [h.on.ahead, List.drop_nil, List.drop_eq_nil_iff]
    exact hend

/-! ### Behind the seam -/

/-- A run over a text alone, and one over the text behind another one, where something was recorded
before. -/
structure Parser.Trails (bytes : Nat) (front text joined : TokenStream) (earlier : List Diagnostic)
    (parser parser' : Parser) : Prop where
  on : parser.On text
  on' : parser'.On joined
  place : parser'.consumed = parser.consumed + front.scans.length
  source : parser.source = parser'.source
  recorded : parser'.recorded = earlier ++ parser.recorded.map (·.moved (.shift bytes))

namespace Parser.Trails

variable {earlier : List Diagnostic} {parser parser' : Parser}
  (hseam : Seam bytes front text joined)
  (h : Trails bytes front text joined earlier parser parser')

include h

theorem record (diagnostic : Diagnostic) :
    Trails bytes front text joined earlier (parser.record diagnostic)
      (parser'.record (diagnostic.moved (.shift bytes))) where
  on := h.on.record _
  on' := h.on'.record _
  place := h.place
  source := h.source
  recorded := by simp [Parser.record, h.recorded]

include hseam

theorem current :
    Pairing.Matched ⟨.shift bytes, .still⟩ parser.current parser'.current := by
  rw [h.on.current, h.on'.current, h.place]
  exact hseam.tokenAt_text _

theorem skip (count : Nat) :
    Trails bytes front text joined earlier (parser.skip count) (parser'.skip count) where
  on := h.on.skip count
  on' := h.on'.skip count
  place := by
    rw [consumed_skip, consumed_skip, h.place]
    omega
  source := by rw [source_skip, source_skip, h.source]
  recorded := by
    rw [h.on.recorded_skip hseam.quietText, h.on'.recorded_skip hseam.quiet, h.recorded]

theorem advance : Trails bytes front text joined earlier parser.advance parser'.advance :=
  h.skip hseam 1

theorem remaining : parser'.remaining = parser.remaining := by
  rw [h.on.remaining, h.on'.remaining, h.place, hseam.length_eq]
  omega

/-- The same tokens are left of a line, except perhaps at the first token of the text. -/
theorem restOfLine (hinside : 0 < parser.consumed ∨ text.scans = []) :
    parser.restOfLine = parser'.restOfLine := by
  have hplace : parser'.consumed = (front.scans.map (·.token.startsLine)).length +
      parser.consumed := by
    rw [h.place, List.length_map, Nat.add_comm]
  rw [h.on.restOfLine, h.on'.restOfLine, hplace, hseam.lines, List.drop_length_add_append]
  rcases hinside with hpos | hnil
  · obtain ⟨count, hcount⟩ := Nat.exists_eq_add_one_of_ne_zero (Nat.ne_of_gt hpos)
    rw [hcount]
    cases text.scans with
    | nil => rfl
    | cons first others => rfl
  · rw [hnil]
    rfl

/-- A statement is given up alike, since what is skipped begins behind the first token. -/
theorem recover {before : Nat} (hle : before ≤ parser.consumed) :
    Trails bytes front text joined earlier (parser.recover before)
      (parser'.recover (before + front.scans.length)) := by
  have hend : parser'.atEnd = parser.atEnd := by
    rw [atEnd, atEnd, (h.current hseam).kind]
  have hplace :
      (parser'.consumed == before + front.scans.length) = (parser.consumed == before) := by
    rw [h.place, Bool.eq_iff_iff, beq_iff_eq, beq_iff_eq]
    omega
  rw [Parser.recover, Parser.recover, hplace, hend]
  split
  · have hnext := h.advance hseam
    rw [← hnext.restOfLine hseam (.inl (Nat.succ_pos _))]
    exact hnext.skip hseam _
  · next hstays =>
      have hinside : 0 < parser.consumed ∨ text.scans = [] := by
        rcases Nat.eq_zero_or_pos parser.consumed with hzero | hpos
        · right
          have hbefore : before = 0 := by omega
          have hlast : parser.atEnd = true := by simpa [hzero, hbefore] using hstays
          have hnone := (h.on.sound hseam.endsText).atEnd_iff.1 hlast
          rw [h.on.remaining, hzero] at hnone
          exact List.length_eq_zero_iff.1 hnone
        · exact .inl hpos
      rw [← h.restOfLine hseam hinside]
      exact h.skip hseam _

end Parser.Trails

/-- A text alone and the text behind another one are read in lockstep. -/
def Tandem.behind (h : Seam bytes front text joined) (earlier : List Diagnostic) :
    Tandem ⟨.shift bytes, .still⟩ where
  Mark := Empty
  left mark := nomatch mark
  right mark := nomatch mark
  alone mark := nomatch mark
  abreast := Parser.Trails bytes front text joined earlier
  same diagnostic diagnostic' := diagnostic.moved (.shift bytes) = diagnostic'
  sound habreast := ⟨habreast.on.sound h.endsText, habreast.on'.sound h.ends⟩
  source habreast := habreast.source
  look {parser parser'} habreast := by
    left
    have hmatched := habreast.current h
    refine ⟨hmatched, habreast.advance h, fun problem => ?_⟩
    have hspan : parser.current.span.moved (.shift bytes) = parser'.current.span :=
      hmatched.tokenSpan
    rw [Diagnostic.moved_of, hspan]
  recover {parser parser' next next' diagnostic _} habreast hnext hle hsame := by
    left
    subst hsame
    rw [habreast.place]
    exact (hnext.record diagnostic).recover h hle

end

/-- The statements of a text are the same under all bounds that exceed the number of tokens left. -/
theorem Parser.statements_settled {grammar : Grammar} (hgrammar : grammar.StopsAtEnd)
    {parser : Parser} (hsound : parser.Sound) {bound : Nat} (hbound : parser.remaining < bound) :
    parser.statements grammar bound = parser.statements grammar (parser.remaining + 1) :=
  (alike_statements hgrammar (fun _ => rfl) (fun _ => rfl) hsound hbound (Nat.lt_succ_self _)).1

/-- Before the end of a text a statement is read or given up. -/
theorem Parser.statements_of_more {grammar : Grammar} {parser next : Parser} {result : Option Stmt}
    (hmore : parser.atEnd = false) (hfirst : Parse.stmtOrRecover grammar parser = (result, next))
    (bound : Nat) :
    parser.statements grammar (bound + 1) =
      (result.toList ++ (next.statements grammar bound).1, (next.statements grammar bound).2) := by
  rw [statements, hmore, hfirst]
  rfl

section

variable {bytes : Nat} {front text joined : TokenStream} (h : Seam bytes front text joined)

include h

/-- From the start of the text on, the parser does what it does on the text alone. -/
theorem Seam.statements_of_trails {earlier : List Diagnostic} {parser parser' : Parser}
    (htrails : Parser.Trails bytes front text joined earlier parser parser') (bound : Nat) :
    (parser'.statements .standard bound).1 =
        (parser.statements .standard bound).1.map (·.moved (.shift bytes)) ∧
      (parser'.statements .standard bound).2.recorded =
        earlier ++ (parser.statements .standard bound).2.recorded.map (·.moved (.shift bytes)) := by
  have hstep : (Tandem.behind h earlier).Step _ _ :=
    .statements Grammar.standard_stopsAtEnd bound
  rcases hstep.both _ _ htrails with hmeet | ⟨mark, -⟩
  · cases hmeet with
    | ok hmatched hlast =>
        refine ⟨?_, hlast.recorded⟩
        rw [Pairing.Matched, ← Stmt.movedAll_eq .still, Stmt.movedAll_still] at hmatched
        exact hmatched.symm
  · cases mark

end

end Quill
