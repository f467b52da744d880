import Quill.Proofs.Parsing.Agreement
import Quill.Proofs.Spans.Trees

/-!
# The spans in front of a parser

The spans of the tokens of a text fit the text and stand in order, and the problems of scanning have
spans that fit it as well.  A parser with such tokens in front of it is ordered.  Taking a token
keeps it so, and never leads to an earlier place in the text.
-/

namespace Quill

namespace Text

/-- The ends of a slice are boundaries, in the right order. -/
theorem boundaries_of_slice? {start stop : Nat} {text slice : List Char}
    (h : slice? start stop text = some slice) :
    start ≤ stop ∧ isBoundary start text = true ∧ isBoundary stop text = true := by
  rw [slice?] at h
  split at h
  · next hall =>
      simp only [Bool.and_eq_true, decide_eq_true_eq] at hall
      exact ⟨hall.1.1, hall.1.2, hall.2⟩
  · cases h

end Text

/-- A span with both ends in a file. -/
theorem Span.eq_within {file : String} {span : Span} (hstart : span.start.file = file)
    (hstop : span.stop.file = file) :
    span = .within file span.start.offset span.stop.offset := by
  subst hstart
  show span = ⟨span.start, ⟨span.stop.offset, span.start.file⟩⟩
  rw [← hstop]

/-! ### What scanning gives -/

namespace Token

variable {file : String} {text : List Char} {token : Token}

/-- The span of a token lies in its extent. -/
theorem span_inside_extent (text : List Char) (token : Token) :
    token.span.Inside (token.extent text) := by
  rw [extent]
  split
  · constructor
    · show token.span.start.offset - 1 ≤ token.span.start.offset
      omega
    · show token.span.stop.offset ≤ token.span.stop.offset + _
      omega
  · exact .refl _

/-- A token stands in the file of its extent. -/
theorem file_extent (text : List Char) (token : Token) :
    (token.extent text).start.file = token.span.start.file ∧
      (token.extent text).stop.file = token.span.stop.file := by
  rw [extent]
  split
  · exact ⟨rfl, rfl⟩
  · exact ⟨rfl, rfl⟩

/-- The span of a token that stands in the text fits the text. -/
theorem Placed.span_fits (h : token.Placed file text) : token.span.Fits file text := by
  obtain ⟨hordered, hstarts, hstops⟩ := Text.boundaries_of_slice? h.value
  obtain ⟨hstart, hstop⟩ := token.file_extent text
  have hinside := token.span_inside_extent text
  rw [h.fits.inFile] at hstart hstop
  exact ⟨Span.eq_within hstart.symm hstop.symm, hordered,
    Nat.le_trans hinside.stop_le h.fits.inText, hstarts, hstops⟩

end Token

/-- The stretch between two parts of a text fits the text. -/
theorem Span.fits_between (file : String) (front middle back : List Char) :
    (Span.within file (Text.byteLength front)
      (Text.byteLength front + Text.byteLength middle)).Fits file (front ++ (middle ++ back)) := by
  obtain ⟨hordered, hstarts, hstops⟩ :=
    Text.boundaries_of_slice? (Text.slice?_between front middle back)
  refine ⟨rfl, hordered, ?_, hstarts, hstops⟩
  show _ ≤ Text.byteLength (front ++ (middle ++ back))
  rw [Text.byteLength_append, Text.byteLength_append]
  show Text.byteLength front + Text.byteLength middle ≤ _
  omega

/-- The reports of filler blame stray characters, wherever the filler stands. -/
theorem Filler.report_fits {file : String} {rest gap : List Char} {offset : Nat}
    {reports : List Diagnostic} (h : Filler file rest offset gap reports) (front back : List Char)
    (hoffset : offset = Text.byteLength front) :
    ∀ report ∈ reports, report.span.Fits file (front ++ (gap ++ back)) := by
  induction h generalizing front with
  | nil => simp
  | @blank offset c gap reports _ _ ih =>
      have hfront := ih (front ++ [c]) (by simp [hoffset])
      simpa using hfront
  | @comment offset words gap reports _ _ _ ih =>
      have hfront := ih (front ++ ('/' :: '/' :: words)) (by simp [hoffset])
      simpa using hfront
  | @stray offset c gap reports _ _ _ ih =>
      intro report hreport
      rcases List.mem_cons.1 hreport with rfl | hreport
      · subst hoffset
        exact Span.fits_between file front [c] (gap ++ back)
      · have hfront := ih (front ++ [c]) (by simp [hoffset])
        simpa using hfront report hreport

namespace TokenStream

variable {file : String} {cursor : Cursor} {stream : TokenStream}

/-- The problems of scanning have spans that fit the text. -/
theorem Covers.problems_fit (h : Covers file cursor stream) :
    ∀ scan ∈ stream.scans ++ [stream.final], ∀ problem ∈ scan.problems,
      problem.span.Fits file cursor.text := by
  induction h with
  | @ending cursor gap reports hafter hfiller =>
      intro scan hscan problem hproblem
      obtain rfl := List.mem_singleton.1 hscan
      rw [Scan.problems_behind, Scan.atEnd, List.append_nil] at hproblem
      have hfits := hfiller.report_fits cursor.before.reverse [] (by simp [cursor.offset_eq])
        problem hproblem
      rwa [List.append_nil, ← hafter] at hfits
  | @lexeme cursor gap reports lexeme rest others hafter hfiller hread _ ih =>
      intro scan hscan problem hproblem
      rw [Cursor.text_advance] at ih
      rcases List.mem_cons.1 hscan with rfl | hscan
      · rw [Scan.problems_behind] at hproblem
        rcases List.mem_append.1 hproblem with hproblem | hproblem
        · have hfits := hfiller.report_fits cursor.before.reverse (lexeme.text ++ rest)
            (by simp [cursor.offset_eq]) problem hproblem
          rwa [← hafter] at hfits
        -- The only problem with a lexeme is an open string, which is blamed as a whole.
        · have hlies := @Covers.lies file cursor gap rest lexeme hafter hread
          rw [hlies.problems, hlies.extent] at hproblem
          split at hproblem
          · obtain rfl := List.mem_singleton.1 hproblem
            have hfits := (cursor.advance gap.length).fits_advance lexeme.text.length file
            rwa [Cursor.text_advance, Cursor.advance_advance] at hfits
          · cases hproblem
      · exact ih scan hscan problem hproblem

end TokenStream

/-! ### Ordered parsers -/

namespace Parser

variable {file : String} {text : List Char} {parser : Parser}

/-- The tokens in front of the parser, with the one for the end. -/
def scans (parser : Parser) : List Scan :=
  parser.ahead ++ [parser.final]

/-- The place in the text where the token in front begins. -/
def place (parser : Parser) : Nat :=
  parser.current.span.start.offset

/-- The spans in front of the parser fit the text, and those of the tokens stand in order. -/
structure Ordered (file : String) (text : List Char) (parser : Parser) : Prop where
  sound : parser.Sound
  fits : ∀ scan ∈ parser.scans, scan.token.span.Fits file text
  apart : parser.scans.Pairwise fun scan later =>
    scan.token.span.stop.offset ≤ later.token.span.start.offset
  final_empty : parser.final.token.span.stop.offset = parser.final.token.span.start.offset
  problems : ∀ scan ∈ parser.scans, ∀ problem ∈ scan.problems,
    problem.span.Fits file text ∧ problem.phase = .lexing

/-- Taking a token leaves the tokens behind it. -/
theorem scans_advance (parser : Parser) : parser.advance.scans <:+ parser.scans := by
  rw [scans, scans, advance]
  cases parser.ahead with
  | nil => exact List.suffix_refl _
  | cons first others => exact List.suffix_cons _ _

/-- The token in front of the parser is one of those. -/
theorem current_mem_scans (parser : Parser) :
    ∃ scan ∈ parser.scans, scan.token = parser.current := by
  rw [scans, current]
  cases parser.ahead with
  | nil => exact ⟨parser.final, List.mem_singleton_self _, rfl⟩
  | cons first others => exact ⟨first, List.mem_cons_self, rfl⟩

/-- The problems that come into view belong to tokens in front of the parser. -/
theorem nextProblems_mem_scans {problem : Diagnostic} (h : problem ∈ parser.nextProblems) :
    ∃ scan ∈ parser.scans, problem ∈ scan.problems := by
  rw [nextProblems] at h
  rw [scans]
  split at h
  · next first second third others hahead => exact ⟨third, by simp [hahead], h⟩
  · exact ⟨parser.final, by simp, h⟩
  · cases h

/-- The problems that are in view at the start belong to tokens in front of the parser. -/
theorem openingProblems_mem_scans {problem : Diagnostic} {ahead : List Scan} {final : Scan}
    (h : problem ∈ openingProblems ahead final) :
    ∃ scan ∈ ahead ++ [final], problem ∈ scan.problems := by
  rw [openingProblems.eq_def] at h
  split at h
  · next first second others =>
      rcases List.mem_append.1 h with h | h
      · exact ⟨first, by simp, h⟩
      · exact ⟨second, by simp, h⟩
  · next first =>
      rcases List.mem_append.1 h with h | h
      · exact ⟨first, by simp, h⟩
      · exact ⟨final, by simp, h⟩
  · exact ⟨final, by simp, h⟩

namespace Ordered

/-- The token in front fits the text. -/
theorem current_fits (h : parser.Ordered file text) : parser.current.span.Fits file text := by
  obtain ⟨scan, hscan, heq⟩ := parser.current_mem_scans
  rw [← heq]
  exact h.fits scan hscan

/-- A parser that records a problem is as ordered as before. -/
theorem record (h : parser.Ordered file text) (diagnostic : Diagnostic) :
    (parser.record diagnostic).Ordered file text :=
  ⟨⟨h.sound.ends, h.sound.others⟩, h.fits, h.apart, h.final_empty, h.problems⟩

/-- A parser that takes a token stays ordered. -/
theorem advance (h : parser.Ordered file text) : parser.advance.Ordered file text where
  sound := ⟨h.sound.ends, fun scan hscan => h.sound.others scan (List.mem_of_mem_tail hscan)⟩
  fits := fun scan hscan => h.fits scan (parser.scans_advance.subset hscan)
  apart := h.apart.sublist parser.scans_advance.sublist
  final_empty := h.final_empty
  problems := fun scan hscan => h.problems scan (parser.scans_advance.subset hscan)

/-- The token behind the one in front begins where that has ended. -/
theorem stop_le_place_advance (h : parser.Ordered file text) :
    parser.current.span.stop.offset ≤ parser.advance.place := by
  have hapart := h.apart
  have hempty := h.final_empty
  rw [place, current, current, Parser.advance]
  rw [scans] at hapart
  cases hahead : parser.ahead with
  | nil => exact Nat.le_of_eq hempty
  | cons first others =>
      rw [hahead, List.cons_append, List.pairwise_cons] at hapart
      cases others with
      | nil => exact hapart.1 parser.final (by simp)
      | cons second others => exact hapart.1 second (by simp)

/-- Taking a token never leads to an earlier place. -/
theorem place_le_advance (h : parser.Ordered file text) : parser.place ≤ parser.advance.place :=
  Nat.le_trans h.current_fits.ordered h.stop_le_place_advance

/-- What comes into view are problems of lexing that fit the text. -/
theorem nextProblems (h : parser.Ordered file text) :
    ∀ problem ∈ parser.nextProblems, problem.span.Fits file text ∧ problem.phase = .lexing := by
  intro problem hproblem
  obtain ⟨scan, hscan, hmem⟩ := nextProblems_mem_scans hproblem
  exact h.problems scan hscan problem hmem

end Ordered

/-- The start of a text is ordered. -/
theorem ordered_ofText (file text : String) (source : Nat) :
    (ofText file text source).Ordered file text.toList := by
  have hcovers := TokenStream.ofText_covers file text
  obtain ⟨hkind, hextent⟩ := hcovers.ends
  have hfinal : (TokenStream.ofText file text).final.token.span =
      .within file (Text.byteLength text.toList) (Text.byteLength text.toList) := by
    rw [Token.extent, hkind] at hextent
    exact hextent
  constructor
  · exact sound_ofText file text source
  · intro scan hscan
    rcases List.mem_append.1 hscan with hscan | hscan
    · exact (hcovers.placed scan hscan).span_fits
    · obtain rfl := List.mem_singleton.1 hscan
      show (TokenStream.ofText file text).final.token.span.Fits file text.toList
      rw [hfinal]
      have hfits := Span.fits_between file text.toList [] []
      simpa using hfits
  -- The extents stand apart, and the spans lie in them.
  · have hordered := hcovers.ordered
    have htokens : (TokenStream.ofText file text).tokens =
        ((ofText file text source).scans).map (·.token) := by
      rw [TokenStream.tokens, scans, List.map_append]
      rfl
    rw [htokens, List.map_map, List.pairwise_map] at hordered
    refine hordered.imp ?_
    intro scan later hle
    exact Nat.le_trans (scan.token.span_inside_extent _).stop_le
      (Nat.le_trans hle (later.token.span_inside_extent _).start_le)
  · show (TokenStream.ofText file text).final.token.span.stop.offset =
      (TokenStream.ofText file text).final.token.span.start.offset
    rw [hfinal]
    rfl
  · intro scan hscan problem hproblem
    exact ⟨hcovers.problems_fit scan hscan problem hproblem,
      hcovers.lexical scan hscan problem hproblem⟩

end Parser

end Quill
