import Quill.Proofs.Parsing.Course
import Quill.Proofs.Scanning.Coverage

/-!
# States on a stream of tokens

A parser that has taken some tokens of a stream stands `On` it.  If scanning found no problem, what
it does there is simple: taking tokens changes nothing but its place, and giving up a statement is
skipping some tokens.
-/

namespace Quill

namespace TokenStream

/-- The token at a place of the stream.  Behind all others there is the one for the end. -/
def tokenAt (stream : TokenStream) (place : Nat) : Token :=
  (stream.scans[place]?.getD stream.final).token

/-- Scanning found no problem. -/
structure Quiet (stream : TokenStream) : Prop where
  scans : ∀ scan ∈ stream.scans, scan.problems = []
  final : stream.final.problems = []

/-- The final token, and no other one, stands for the end of the text. -/
structure Ends (stream : TokenStream) : Prop where
  final : stream.final.token.kind = .endOfInput
  others : ∀ scan ∈ stream.scans, scan.token.kind ≠ .endOfInput

theorem quiet_of_diagnostics {stream : TokenStream} (h : stream.diagnostics = []) :
    stream.Quiet := by
  obtain ⟨hscans, hfinal⟩ := List.append_eq_nil_iff.1 h
  exact ⟨List.flatMap_eq_nil_iff.1 hscans, hfinal⟩

theorem ofText_ends (file text : String) : (ofText file text).Ends where
  final := (ofText_covers file text).ends.1
  others := fun scan hscan => ((ofText_covers file text).placed scan hscan).kind

end TokenStream

namespace Parser

variable {stream : TokenStream} {parser : Parser}

/-- The parser has taken the first tokens of a stream. -/
structure On (stream : TokenStream) (parser : Parser) : Prop where
  final : parser.final = stream.final
  ahead : parser.ahead = stream.scans.drop parser.consumed

namespace On

theorem start (stream : TokenStream) (source : Nat) : On stream (Parser.start stream source) :=
  ⟨rfl, rfl⟩

theorem advance (h : On stream parser) : On stream parser.advance := by
  refine ⟨h.final, ?_⟩
  change parser.ahead.tail = stream.scans.drop (parser.consumed + 1)
  rw [h.ahead, List.tail_drop]

theorem record (h : On stream parser) (diagnostic : Diagnostic) :
    On stream (parser.record diagnostic) :=
  ⟨h.final, h.ahead⟩

theorem current (h : On stream parser) : parser.current = stream.tokenAt parser.consumed := by
  rw [Parser.current, TokenStream.tokenAt, h.ahead, h.final, List.head?_drop]

theorem sound (h : On stream parser) (hends : stream.Ends) : parser.Sound where
  ends := by
    rw [h.final]
    exact hends.final
  others := by
    intro scan hscan
    rw [h.ahead] at hscan
    exact hends.others scan (List.mem_of_mem_drop hscan)

theorem remaining (h : On stream parser) :
    parser.remaining = stream.scans.length - parser.consumed := by
  rw [Parser.remaining, h.ahead, List.length_drop]

end On

/-! ### What is recorded -/

/-- Nothing comes into view on a stream without problems. -/
theorem On.recorded_advance (h : On stream parser) (hquiet : stream.Quiet) :
    parser.advance.recorded = parser.recorded := by
  have hnone : parser.nextProblems = [] := by
    have hscans : ∀ scan ∈ parser.ahead, scan.problems = [] := by
      intro scan hscan
      rw [h.ahead] at hscan
      exact hquiet.scans scan (List.mem_of_mem_drop hscan)
    rw [nextProblems]
    split
    · next third _ hahead => exact hscans third (by simp [hahead])
    · rw [h.final, hquiet.final]
    · rfl
  change parser.recorded ++ parser.nextProblems = parser.recorded
  rw [hnone, List.append_nil]

/-- A stream without problems is begun with none. -/
theorem recorded_start (hquiet : stream.Quiet) (source : Nat) :
    (Parser.start stream source).recorded = [] := by
  change openingProblems stream.scans stream.final = []
  have hscans := hquiet.scans
  rw [openingProblems.eq_def]
  split
  · next first second _ heq =>
      rw [hscans first (by simp [heq]), hscans second (by simp [heq])]
      rfl
  · next first heq =>
      rw [hscans first (by simp [heq]), hquiet.final]
      rfl
  · exact hquiet.final

/-- What was recorded stays in front. -/
theorem recorded_isPrefix_record (parser : Parser) (diagnostic : Diagnostic) :
    parser.recorded <+: (parser.record diagnostic).recorded :=
  List.prefix_append _ _

theorem recorded_isPrefix_skip (count : Nat) (parser : Parser) :
    parser.recorded <+: (parser.skip count).recorded := by
  induction count generalizing parser with
  | zero => exact List.prefix_rfl
  | succ count ih => exact (List.prefix_append _ _).trans (ih parser.advance)

theorem recorded_isPrefix_recover (before : Nat) (parser : Parser) :
    parser.recorded <+: (parser.recover before).recorded := by
  rw [recover]
  split
  · exact (List.prefix_append _ _).trans (recorded_isPrefix_skip _ parser.advance)
  · exact recorded_isPrefix_skip _ parser

theorem Reaches.recorded_isPrefix {next : Parser} (h : parser.Reaches next) :
    parser.recorded <+: next.recorded := by
  induction h with
  | refl => exact List.prefix_rfl
  | take _ _ ih => exact ih.trans (List.prefix_append _ _)
  | note _ _ ih => exact ih.trans (List.prefix_append _ _)

theorem Reaches.source_eq {next : Parser} (h : parser.Reaches next) :
    next.source = parser.source := by
  induction h with
  | refl => rfl
  | take _ _ ih => exact ih
  | note _ _ ih => exact ih

/-! ### Skipping tokens -/

/-- Giving up a statement is skipping tokens. -/
theorem recover_eq_skip (before : Nat) (parser : Parser) :
    ∃ count, parser.recover before = parser.skip count := by
  rw [recover]
  split
  · exact ⟨parser.advance.restOfLine + 1, rfl⟩
  · exact ⟨parser.restOfLine, rfl⟩

theorem consumed_skip (count : Nat) (parser : Parser) :
    (parser.skip count).consumed = parser.consumed + count := by
  induction count generalizing parser with
  | zero => rfl
  | succ count ih =>
      rw [skip, ih, consumed_advance]
      omega

theorem source_skip (count : Nat) (parser : Parser) :
    (parser.skip count).source = parser.source := by
  induction count generalizing parser with
  | zero => rfl
  | succ count ih => exact ih parser.advance

theorem On.skip (h : On stream parser) (count : Nat) : On stream (parser.skip count) := by
  induction count generalizing parser with
  | zero => exact h
  | succ count ih => exact ih h.advance

theorem On.recorded_skip (h : On stream parser) (hquiet : stream.Quiet) (count : Nat) :
    (parser.skip count).recorded = parser.recorded := by
  induction count generalizing parser with
  | zero => rfl
  | succ count ih => exact (ih h.advance).trans (h.recorded_advance hquiet)

/-- The rest of a line depends on where lines start, and on nothing else. -/
theorem On.restOfLine (h : On stream parser) :
    parser.restOfLine =
      (((stream.scans.map (·.token.startsLine)).drop parser.consumed).takeWhile (!·)).length := by
  rw [Parser.restOfLine, h.ahead, ← List.map_drop, List.takeWhile_map, List.length_map]
  rfl

/-! ### Two runs at the same place -/

/-- Two runs stand at the same place and have not recorded anything. -/
structure Lockstep (stream stream' : TokenStream) (parser parser' : Parser) : Prop where
  on : parser.On stream
  on' : parser'.On stream'
  place : parser.consumed = parser'.consumed
  source : parser.source = parser'.source
  clear : parser.recorded = []
  clear' : parser'.recorded = []

theorem Lockstep.advance {stream stream' : TokenStream} {parser parser' : Parser}
    (h : Lockstep stream stream' parser parser') (hquiet : stream.Quiet)
    (hquiet' : stream'.Quiet) : Lockstep stream stream' parser.advance parser'.advance where
  on := h.on.advance
  on' := h.on'.advance
  place := congrArg (· + 1) h.place
  source := h.source
  clear := (h.on.recorded_advance hquiet).trans h.clear
  clear' := (h.on'.recorded_advance hquiet').trans h.clear'

theorem Lockstep.start {stream stream' : TokenStream} (hquiet : stream.Quiet)
    (hquiet' : stream'.Quiet) (source : Nat) :
    Lockstep stream stream' (.start stream source) (.start stream' source) where
  on := .start stream source
  on' := .start stream' source
  place := rfl
  source := rfl
  clear := recorded_start hquiet source
  clear' := recorded_start hquiet' source

end Parser

end Quill
