import Quill.Proofs.Scanning.Anatomy

/-!
# Scanning accounts for every character

The extent of a token is its span together with the quotes of a string.  The extents of the tokens
of a text stand in order and apart, and the stretches between them hold nothing but filler: blanks,
comments and stray characters.  Each stray character has its own report, and an open string has one.
-/

namespace Quill

/-- Whether the problem is an unexpected token, as a stray character is. -/
def Problem.isUnexpectedToken : Problem → Bool
  | unexpectedToken _ => true
  | _ => false

/-- The span is a stretch of the text between two of its boundaries. -/
structure Span.Fits (file : String) (text : List Char) (span : Span) : Prop where
  inFile : span = .within file span.start.offset span.stop.offset
  ordered : span.start.offset ≤ span.stop.offset
  inText : span.stop.offset ≤ Text.byteLength text
  starts : Text.isBoundary span.start.offset text = true
  stops : Text.isBoundary span.stop.offset text = true

namespace Token

/-- Whether a closing quote stands right behind the span of the token. -/
def isClosed (text : List Char) (token : Token) : Bool :=
  (Text.splitAtOffset token.span.stop.offset text).2.head? == some '"'

/-- The stretch of text that the token takes up: its span, and for a string also its quotes. -/
def extent (text : List Char) (token : Token) : Span :=
  if token.kind == .stringLiteral then
    ⟨{ token.span.start with offset := token.span.start.offset - 1 },
      { token.span.stop with
        offset := token.span.stop.offset + if token.isClosed text then 1 else 0 }⟩
  else
    token.span

/-- The characters of the token in the text; the closing quote of a string may be missing. -/
def written (text : List Char) (token : Token) : List Char :=
  if token.kind == .stringLiteral then
    '"' :: (token.value.toList ++ if token.isClosed text then ['"'] else [])
  else
    token.value.toList

/-- The token stands in the text: its extent is a stretch of the text that holds the whole token,
and its span holds what the token stands for. -/
structure Placed (file : String) (text : List Char) (token : Token) : Prop where
  kind : token.kind ≠ .endOfInput
  fits : (token.extent text).Fits file text
  nonempty : (token.extent text).start.offset < (token.extent text).stop.offset
  value : Text.slice? token.span.start.offset token.span.stop.offset text =
    some token.value.toList
  whole : Text.slice? (token.extent text).start.offset (token.extent text).stop.offset text =
    some (token.written text)

end Token

/-- In the text behind an offset, the stretches in front of the extents, one after the other, are
filler, and these are the reports of all their stray characters. -/
inductive Gaps (file : String) (text : List Char) : Nat → List Span → List Diagnostic → Prop
  | nil {offset : Nat} : Gaps file text offset [] []
  | cons {offset : Nat} {extent : Span} {extents : List Span} {gap : List Char}
    {reports others : List Diagnostic}
    (slice : Text.slice? offset extent.start.offset text = some gap)
    (filler : Filler file (Text.splitAtOffset extent.start.offset text).2 offset gap reports)
    (more : Gaps file text extent.stop.offset extents others) :
    Gaps file text offset (extent :: extents) (reports ++ others)

namespace TokenStream

/-- The last string of the stream. -/
def lastString? (stream : TokenStream) : Option Token :=
  (stream.tokens.filter (·.kind == .stringLiteral)).getLast?

/-- The stream accounts for every character of the text. -/
structure Accounts (file : String) (text : List Char) (stream : TokenStream) : Prop where
  placed : ∀ scan ∈ stream.scans, scan.token.Placed file text
  /-- The final token alone stands for the end of the text, and it stands there. -/
  ends : stream.final.token.kind = .endOfInput ∧
    stream.final.token.extent text = .within file (Text.byteLength text) (Text.byteLength text)
  ordered : (stream.tokens.map (·.extent text)).Pairwise fun first second =>
    first.stop.offset ≤ second.start.offset
  /-- Between the extents is filler, and the reports of unexpected tokens are those of its stray
  characters. -/
  gaps : Gaps file text 0 (stream.tokens.map (·.extent text))
    (stream.diagnostics.filter (·.problem.isUnexpectedToken))
  distinct : ((stream.diagnostics.filter (·.problem.isUnexpectedToken)).map (·.span)).Nodup
  /-- The last string has a report, the only one of its kind, just if it is open. -/
  openString : stream.diagnostics.filter (·.problem == .unterminatedString) =
    (stream.lastString?.filter fun token => !token.isClosed text).toList.map fun token =>
      .of .unterminatedString (token.extent text)

end TokenStream

/-! ### What a cursor reads fits the text -/

namespace Cursor

variable (cursor : Cursor) (count : Nat)

/-- What lies between a cursor and a later one is a stretch of the text. -/
theorem fits_advance (file : String) :
    (Span.within file cursor.offset (cursor.advance count).offset).Fits file cursor.text where
  inFile := rfl
  ordered := by
    change cursor.offset ≤ (cursor.advance count).offset
    rw [offset_advance]
    omega
  inText := by
    have hle := offset_le_byteLength (cursor.advance count)
    rwa [text_advance] at hle
  starts := isBoundary_offset cursor
  stops := by
    have hstop := isBoundary_offset (cursor.advance count)
    rwa [text_advance] at hstop

/-- Behind an opening quote, the offset of the closing one is counted from the characters between
them. -/
theorem behind_quote {cursor : Cursor} {inner back : List Char}
    (hafter : cursor.after = '"' :: (inner ++ back)) :
    Text.slice? (cursor.offset + 1) (cursor.offset + 1 + Text.byteLength inner) cursor.text =
        some inner ∧
      (Text.splitAtOffset (cursor.offset + 1 + Text.byteLength inner) cursor.text).2 = back := by
  have hopened : (cursor.advance 1).offset = cursor.offset + 1 := by
    rw [offset_advance, hafter]
    rfl
  have hinner : (cursor.advance 1).after = inner ++ back := by
    rw [after_advance, hafter, List.drop_succ_cons, List.drop_zero]
  have hclosing : ((cursor.advance 1).advance inner.length).offset =
      cursor.offset + 1 + Text.byteLength inner := by
    rw [offset_advance, hopened, hinner, List.take_left]
  have hslice := slice?_advance (cursor.advance 1) inner.length
  have hcut := splitAtOffset_advance (cursor.advance 1) inner.length
  rw [text_advance, hclosing, hinner] at hslice hcut
  rw [hopened, List.take_left] at hslice
  rw [List.drop_left] at hcut
  exact ⟨hslice, hcut⟩

end Cursor

/-! ### The token of a lexeme -/

namespace Scan

variable {file : String} {lexeme : Lexeme} {first last : Cursor} {rest : List Char}

/-- A lexeme other than a string gives its token alone. -/
theorem ofLexeme_of_kind_ne (hkind : lexeme.kind ≠ .stringLiteral) :
    ofLexeme file lexeme first last =
      ⟨.between file lexeme.kind (String.ofList lexeme.text) first last, []⟩ := by
  rw [ofLexeme, beq_eq_false_iff_ne.2 hkind, Lexeme.value_of_kind_ne hkind]
  rfl

/-- The token of a string lies between the quotes. -/
theorem span_ofLexeme_of_string (hkind : lexeme.kind = .stringLiteral) :
    (ofLexeme file lexeme first last).token.span =
      .within file (first.offset + 1) (first.offset + 1 + Text.byteLength lexeme.value) := by
  rw [ofLexeme, hkind]
  rfl

/-- The token of a lexeme that stands behind a cursor, read against the text: its extent is what was
read, and its span is what it stands for.  A string is closed unless it is the last of the text, and
that is the only problem with a lexeme. -/
structure Lies (file : String) (text : List Char) (first last : Cursor) (scan : Scan) : Prop where
  extent : scan.token.extent text = .within file first.offset last.offset
  value : Text.slice? scan.token.span.start.offset scan.token.span.stop.offset text =
    some scan.token.value.toList
  written : Text.slice? first.offset last.offset text = some (scan.token.written text)
  problems : scan.problems =
    if scan.token.kind == .stringLiteral && !scan.token.isClosed text then
      [.of .unterminatedString (scan.token.extent text)]
    else
      []
  atEnd : scan.problems ≠ [] → last.after = []

/-- The token of a string lies where it was read.  The characters behind what it stands for decide
whether it is closed. -/
theorem ofLexeme_lies_of_string {inner back : List Char} (hkind : lexeme.kind = .stringLiteral)
    (hvalue : lexeme.value = inner) (hafter : first.after = '"' :: (inner ++ back))
    (hopen : lexeme.isUnterminated = !(back.head? == some '"'))
    (htext : lexeme.text = '"' :: (inner ++ if back.head? == some '"' then ['"'] else []))
    (hoffset : last.offset = first.offset + Text.byteLength lexeme.text)
    (hread : Text.slice? first.offset last.offset first.text = some lexeme.text)
    (hend : (back.head? == some '"') = false → last.after = []) :
    (ofLexeme file lexeme first last).Lies file first.text first last := by
  have hspan := @span_ofLexeme_of_string file lexeme first last hkind
  have hstring : (ofLexeme file lexeme first last).token.kind = .stringLiteral := by
    rw [kind_ofLexeme, hkind]
  obtain ⟨hslice, hcut⟩ := Cursor.behind_quote hafter
  rw [hvalue] at hspan
  have hclosed : (ofLexeme file lexeme first last).token.isClosed first.text =
      (back.head? == some '"') := by
    rw [Token.isClosed, hspan]
    change ((Text.splitAtOffset (first.offset + 1 + _) first.text).2.head? == _) = _
    rw [hcut]
  have hextent : (ofLexeme file lexeme first last).token.extent first.text =
      .within file first.offset last.offset := by
    rw [Token.extent, hstring, hspan, hclosed, hoffset, htext]
    have hquote : '"'.utf8Size = 1 := rfl
    cases back.head? == some '"' <;> simp [Span.within, hquote] <;> omega
  have hproblems : (ofLexeme file lexeme first last).problems =
      if back.head? == some '"' then []
      else [.of .unterminatedString (.within file first.offset last.offset)] := by
    rw [ofLexeme, hkind, hopen]
    cases back.head? == some '"' <;> rfl
  constructor
  · exact hextent
  · rw [hspan, value_ofLexeme, hvalue]
    simpa [Span.within] using hslice
  · rw [Token.written, hstring, hclosed, value_ofLexeme, hvalue, hread, htext]
    simp
  · rw [hproblems, hstring, hclosed, hextent]
    cases back.head? == some '"' <;> rfl
  · intro hsome
    apply hend
    rw [hproblems] at hsome
    cases hquote : back.head? == some '"' with
    | true => simp [hquote] at hsome
    | false => rfl

/-- Every lexeme gives a token that lies where it was read. -/
theorem ofLexeme_lies (hafter : first.after = lexeme.text ++ rest) (hstands : lexeme.Stands rest)
    (hlast : last = first.advance lexeme.text.length) :
    (ofLexeme file lexeme first last).Lies file first.text first last := by
  have hread : Text.slice? first.offset last.offset first.text = some lexeme.text := by
    rw [hlast, Cursor.slice?_advance, hafter, List.take_left]
  have hoffset : last.offset = first.offset + Text.byteLength lexeme.text := by
    rw [hlast, Cursor.offset_advance, hafter, List.take_left]
  have hbehind : last.after = rest := by
    rw [hlast, Cursor.after_advance, hafter, List.drop_left]
  cases hstands with
  | plain hkind _ =>
      rw [ofLexeme_of_kind_ne hkind]
      have hstring : (lexeme.kind == .stringLiteral) = false := beq_eq_false_iff_ne.2 hkind
      constructor
      · simp [Token.extent, Token.between, hstring]
      · simpa [Token.between, Span.within] using hread
      · simpa [Token.written, Token.between, hstring] using hread
      · simp [Token.between, hstring]
      · simp
  | closed inner hunquoted heq =>
      subst heq
      have hback : first.after = '"' :: (inner ++ ('"' :: rest)) := by
        rw [hafter, List.cons_append, List.append_assoc, List.singleton_append]
      exact ofLexeme_lies_of_string rfl (Lexeme.value_quoted hunquoted) hback
        (by simp [Lexeme.isUnterminated]) rfl hoffset hread (by simp)
  | unclosed inner hunquoted heq hrest =>
      subst heq hrest
      have hopen : Lexeme.isUnterminated ⟨.stringLiteral, '"' :: inner⟩ = true := by
        simpa [Lexeme.isUnterminated] using hunquoted
      exact ofLexeme_lies_of_string rfl (Lexeme.value_unclosed hunquoted) hafter hopen
        (by simp) hoffset hread fun _ => hbehind

end Scan

/-! ### The reports of filler -/

namespace Filler

variable {file : String} {rest gap : List Char} {offset : Nat} {reports : List Diagnostic}

/-- Filler has reports of unexpected tokens only, each of a place in the filler. -/
theorem report_within (h : Filler file rest offset gap reports) :
    ∀ report ∈ reports, report.problem.isUnexpectedToken = true ∧
      offset ≤ report.span.start.offset ∧
      report.span.start.offset < offset + Text.byteLength gap := by
  induction h with
  | nil => simp
  | blank _ _ ih =>
      intro report hreport
      obtain ⟨hkind, hstart, hstop⟩ := ih report hreport
      rw [Text.byteLength_cons]
      exact ⟨hkind, by omega, by omega⟩
  | comment _ _ _ ih =>
      intro report hreport
      obtain ⟨hkind, hstart, hstop⟩ := ih report hreport
      simp only [Text.byteLength_cons, Text.byteLength_append] at hstart hstop ⊢
      exact ⟨hkind, by omega, by omega⟩
  | @stray offset c gap reports _ _ _ ih =>
      have hsize := c.utf8Size_pos
      intro report hreport
      rw [Text.byteLength_cons]
      rcases List.mem_cons.1 hreport with rfl | hreport
      · refine ⟨rfl, Nat.le_refl offset, ?_⟩
        change offset < _
        omega
      · obtain ⟨hkind, hstart, hstop⟩ := ih report hreport
        exact ⟨hkind, by omega, by omega⟩

/-- The reports of filler are in the order of the text. -/
theorem reports_sorted (h : Filler file rest offset gap reports) :
    reports.Pairwise fun first second => first.span.start.offset < second.span.start.offset := by
  induction h with
  | nil => exact .nil
  | blank _ _ ih => exact ih
  | comment _ _ _ ih => exact ih
  | @stray offset c gap reports _ _ hmore ih =>
      have hsize := c.utf8Size_pos
      refine .cons ?_ ih
      intro report hreport
      obtain ⟨-, hstart, -⟩ := hmore.report_within report hreport
      change offset < _
      omega

/-- All reports of filler are of unexpected tokens. -/
theorem filter_unexpected (h : Filler file rest offset gap reports) :
    reports.filter (·.problem.isUnexpectedToken) = reports :=
  List.filter_eq_self.2 fun report hreport => (h.report_within report hreport).1

/-- No report of filler is of an open string. -/
theorem filter_unterminated (h : Filler file rest offset gap reports) :
    reports.filter (·.problem == .unterminatedString) = [] := by
  rw [List.filter_eq_nil_iff]
  intro report hreport hopen
  have hkind := (h.report_within report hreport).1
  rw [beq_iff_eq.1 hopen] at hkind
  cases hkind

end Filler

/-! ### The stream of a text -/

namespace TokenStream

/-- The tokens of a stream with one more lexeme in front. -/
theorem tokens_cons (scan : Scan) (others : TokenStream) :
    tokens ⟨scan :: others.scans, others.final⟩ = scan.token :: others.tokens := rfl

/-- The problems of a stream with one more lexeme in front. -/
theorem diagnostics_cons (scan : Scan) (others : TokenStream) :
    diagnostics ⟨scan :: others.scans, others.final⟩ = scan.problems ++ others.diagnostics := by
  rw [diagnostics, diagnostics, List.flatMap_cons, List.append_assoc]

/-- The problems of a stream without a lexeme are those of the filler in front of its end. -/
theorem diagnostics_atEnd (file : String) (cursor : Cursor) (reports : List Diagnostic) :
    diagnostics ⟨[], (Scan.atEnd file cursor).behind reports⟩ = reports := by
  simp [diagnostics, Scan.atEnd]

/-- A string in front of a stream is its last one if there is no other. -/
theorem lastString?_cons (scan : Scan) (others : TokenStream) :
    lastString? ⟨scan :: others.scans, others.final⟩ =
      if scan.token.kind == .stringLiteral then
        some (others.lastString?.getD scan.token)
      else
        others.lastString? := by
  rw [lastString?, tokens_cons, List.filter_cons]
  split
  · rw [List.getLast?_cons]
    rfl
  · rfl

namespace Covers

variable {file : String} {cursor : Cursor} {stream : TokenStream}

/-- A lexeme behind filler gives a token that lies where it was read. -/
theorem lies {gap rest : List Char} {lexeme : Lexeme}
    (hafter : cursor.after = gap ++ (lexeme.text ++ rest))
    (hread : lexeme? (lexeme.text ++ rest) = some lexeme) :
    (Scan.ofLexeme file lexeme (cursor.advance gap.length)
      (cursor.advance (gap.length + lexeme.text.length))).Lies file cursor.text
      (cursor.advance gap.length) (cursor.advance (gap.length + lexeme.text.length)) := by
  obtain ⟨last, htext, hstands⟩ := lexeme?_stands hread
  obtain rfl : rest = last := List.append_cancel_left htext
  have hfirst : (cursor.advance gap.length).after = lexeme.text ++ rest := by
    rw [Cursor.after_advance, hafter, List.drop_left]
  have hlies := @Scan.ofLexeme_lies file lexeme _ _ _ hfirst hstands
    (Cursor.advance_advance cursor gap.length lexeme.text.length).symm
  rwa [Cursor.text_advance] at hlies

/-- Every token of a lexeme stands in the text. -/
theorem placed (h : Covers file cursor stream) :
    ∀ scan ∈ stream.scans, scan.token.Placed file cursor.text := by
  induction h with
  | ending => simp
  | @lexeme cursor gap reports lexeme rest others hafter hfiller hread _ ih =>
      intro scan hscan
      rw [Cursor.text_advance] at ih
      rcases List.mem_cons.1 hscan with rfl | hscan
      · have hlies := @lies file cursor gap rest lexeme hafter hread
        have hsome := Text.byteLength_pos (Lexeme.text_ne_nil hread)
        rw [Scan.token_behind]
        constructor
        · rw [Scan.kind_ofLexeme]
          exact Lexeme.kind_ne_endOfInput hread
        · rw [hlies.extent, ← Cursor.advance_advance]
          have hfits := (cursor.advance gap.length).fits_advance lexeme.text.length file
          rwa [Cursor.text_advance] at hfits
        · rw [hlies.extent, ← Cursor.advance_advance]
          have hlast := (cursor.advance gap.length).offset_advance lexeme.text.length
          rw [Cursor.after_advance, hafter, List.drop_left, List.take_left] at hlast
          change (cursor.advance gap.length).offset < ((cursor.advance gap.length).advance _).offset
          omega
        · exact hlies.value
        · rw [hlies.extent]
          exact hlies.written
      · exact ih scan hscan

/-- The extent of the final token is empty, and stands at the end of the text. -/
theorem ends (h : Covers file cursor stream) :
    stream.final.token.kind = .endOfInput ∧
      stream.final.token.extent cursor.text =
        .within file (Text.byteLength cursor.text) (Text.byteLength cursor.text) := by
  induction h with
  | @ending cursor gap reports hafter _ =>
      have hend : (cursor.advance gap.length).offset = Text.byteLength cursor.text := by
        rw [Cursor.offset_advance, hafter, List.take_length, Cursor.text, hafter, cursor.offset_eq]
        simp
      refine ⟨rfl, ?_⟩
      change Span.within file _ _ = _
      rw [hend]
  | lexeme _ _ _ _ ih =>
      rw [Cursor.text_advance] at ih
      exact ih

/-- The extents of the tokens stand behind the cursor. -/
theorem extents_behind (h : Covers file cursor stream) :
    ∀ token ∈ stream.tokens, cursor.offset ≤ (token.extent cursor.text).start.offset := by
  induction h with
  | @ending cursor gap reports hafter _ =>
      intro token htoken
      obtain rfl := List.mem_singleton.1 htoken
      change cursor.offset ≤ (cursor.advance gap.length).offset
      rw [Cursor.offset_advance]
      omega
  | @lexeme cursor gap reports lexeme rest others hafter hfiller hread _ ih =>
      intro token htoken
      rw [Cursor.text_advance] at ih
      rw [tokens_cons] at htoken
      rcases List.mem_cons.1 htoken with rfl | htoken
      · rw [Scan.token_behind, (lies hafter hread).extent]
        change cursor.offset ≤ (cursor.advance gap.length).offset
        rw [Cursor.offset_advance]
        omega
      · have hothers := ih token htoken
        rw [Cursor.offset_advance] at hothers
        omega

/-- The extents of the tokens stand in order and apart. -/
theorem ordered (h : Covers file cursor stream) :
    (stream.tokens.map (·.extent cursor.text)).Pairwise fun first second =>
      first.stop.offset ≤ second.start.offset := by
  induction h with
  | ending => exact List.pairwise_singleton _ _
  | @lexeme cursor gap reports lexeme rest others hafter hfiller hread hmore ih =>
      have hbehind := hmore.extents_behind
      rw [Cursor.text_advance] at ih hbehind
      rw [tokens_cons, List.map_cons, List.pairwise_cons]
      refine ⟨?_, ih⟩
      intro second hsecond
      obtain ⟨token, htoken, rfl⟩ := List.mem_map.1 hsecond
      rw [Scan.token_behind, (lies hafter hread).extent]
      exact hbehind token htoken

/-- The reports of unexpected tokens come from filler, since the only problem with a lexeme is an
open string. -/
theorem filter_unexpected_cons {gap rest : List Char} {lexeme : Lexeme}
    {reports : List Diagnostic} (hafter : cursor.after = gap ++ (lexeme.text ++ rest))
    (hfiller : Filler file (lexeme.text ++ rest) cursor.offset gap reports)
    (hread : lexeme? (lexeme.text ++ rest) = some lexeme) (others : TokenStream) :
    (diagnostics ⟨(Scan.ofLexeme file lexeme (cursor.advance gap.length)
        (cursor.advance (gap.length + lexeme.text.length))).behind reports :: others.scans,
      others.final⟩).filter (·.problem.isUnexpectedToken) =
      reports ++ others.diagnostics.filter (·.problem.isUnexpectedToken) := by
  have hnone : (Scan.ofLexeme file lexeme (cursor.advance gap.length)
      (cursor.advance (gap.length + lexeme.text.length))).problems.filter
        (·.problem.isUnexpectedToken) = [] := by
    rw [(lies hafter hread).problems]
    split <;> rfl
  rw [diagnostics_cons, Scan.problems_behind, List.filter_append, List.filter_append,
    hfiller.filter_unexpected, hnone, List.append_nil]

/-- The stretches between the extents are filler, with the reports of its stray characters. -/
theorem gaps (h : Covers file cursor stream) :
    Gaps file cursor.text cursor.offset (stream.tokens.map (·.extent cursor.text))
      (stream.diagnostics.filter (·.problem.isUnexpectedToken)) := by
  induction h with
  | @ending cursor gap reports hafter hfiller =>
      have hslice := cursor.slice?_advance gap.length
      have hbehind := cursor.splitAtOffset_advance gap.length
      rw [hafter, List.take_length] at hslice
      rw [hafter, List.drop_length] at hbehind
      rw [diagnostics_atEnd, hfiller.filter_unexpected, ← List.append_nil reports]
      rw [← hbehind] at hfiller
      exact .cons hslice hfiller .nil
  | @lexeme cursor gap reports lexeme rest others hafter hfiller hread _ ih =>
      have hslice := cursor.slice?_advance gap.length
      have hbehind := cursor.splitAtOffset_advance gap.length
      rw [hafter, List.take_left] at hslice
      rw [hafter, List.drop_left] at hbehind
      rw [Cursor.text_advance] at ih
      rw [tokens_cons, List.map_cons, Scan.token_behind, (lies hafter hread).extent,
        filter_unexpected_cons hafter hfiller hread]
      rw [← hbehind] at hfiller
      exact .cons hslice hfiller ih

/-- The reports of unexpected tokens are in the order of the text, behind the cursor. -/
theorem strays_sorted (h : Covers file cursor stream) :
    (∀ report ∈ stream.diagnostics.filter (·.problem.isUnexpectedToken),
      cursor.offset ≤ report.span.start.offset) ∧
    (stream.diagnostics.filter (·.problem.isUnexpectedToken)).Pairwise fun first second =>
      first.span.start.offset < second.span.start.offset := by
  induction h with
  | @ending cursor gap reports hafter hfiller =>
      rw [diagnostics_atEnd, hfiller.filter_unexpected]
      exact ⟨fun report hreport => (hfiller.report_within report hreport).2.1,
        hfiller.reports_sorted⟩
  | @lexeme cursor gap reports lexeme rest others hafter hfiller hread _ ih =>
      obtain ⟨hbehind, hsorted⟩ := ih
      have hnext : (cursor.advance (gap.length + lexeme.text.length)).offset =
          cursor.offset + Text.byteLength gap + Text.byteLength lexeme.text := by
        rw [Cursor.offset_advance, hafter, ← List.append_assoc, ← List.length_append,
          List.take_left, Text.byteLength_append, Nat.add_assoc]
      rw [hnext] at hbehind
      rw [filter_unexpected_cons hafter hfiller hread, List.pairwise_append]
      refine ⟨?_, hfiller.reports_sorted, hsorted, ?_⟩
      · intro report hreport
        rcases List.mem_append.1 hreport with hreport | hreport
        · exact (hfiller.report_within report hreport).2.1
        · have hothers := hbehind report hreport
          omega
      · intro first hfirst second hsecond
        have hwithin := (hfiller.report_within first hfirst).2.2
        have hothers := hbehind second hsecond
        omega

/-- At the end of a text there is no string any more. -/
theorem lastString?_of_after_eq_nil (h : Covers file cursor stream) (hafter : cursor.after = []) :
    stream.lastString? = none := by
  cases h with
  | ending => rfl
  | lexeme hgap _ hread =>
      rw [hafter] at hgap
      have hnil := (List.append_eq_nil_iff.1 (List.append_eq_nil_iff.1 hgap.symm).2).1
      exact absurd hnil (Lexeme.text_ne_nil hread)

/-- The last string has a report just if it is open. -/
theorem openString (h : Covers file cursor stream) :
    stream.diagnostics.filter (·.problem == .unterminatedString) =
      (stream.lastString?.filter fun token => !token.isClosed cursor.text).toList.map fun token =>
        .of .unterminatedString (token.extent cursor.text) := by
  induction h with
  | @ending cursor gap reports hafter hfiller =>
      rw [diagnostics_atEnd, hfiller.filter_unterminated]
      rfl
  | @lexeme cursor gap reports lexeme rest others hafter hfiller hread hmore ih =>
      have hlies := @lies file cursor gap rest lexeme hafter hread
      rw [Cursor.text_advance] at ih
      rw [diagnostics_cons, Scan.problems_behind, List.filter_append, List.filter_append,
        hfiller.filter_unterminated, List.nil_append, ih]
      rw [lastString?_cons, Scan.token_behind]
      generalize Scan.ofLexeme file lexeme (cursor.advance gap.length)
        (cursor.advance (gap.length + lexeme.text.length)) = scan at hlies ⊢
      have hproblems := hlies.problems
      cases hstring : scan.token.kind == .stringLiteral with
      | false =>
          rw [hstring] at hproblems
          simp [hproblems]
      | true =>
          rw [hstring] at hproblems
          cases hclosed : scan.token.isClosed cursor.text with
          | true =>
              -- The last string is a later one, or this closed one.
              rw [hclosed] at hproblems
              cases others.lastString? <;> simp [hproblems, hclosed]
          | false =>
              -- An open string takes all of the text, so that it is the last one.
              rw [hclosed] at hproblems
              have hend := hlies.atEnd (by simp [hproblems])
              rw [hmore.lastString?_of_after_eq_nil hend, hproblems]
              simp [hclosed, Diagnostic.of, Option.filter]

end Covers

/-- Scanning accounts for every character of every text. -/
theorem ofText_accounts (file text : String) :
    (ofText file text).Accounts file text.toList := by
  have hcovers := ofText_covers file text
  constructor
  · exact hcovers.placed
  · exact hcovers.ends
  · exact hcovers.ordered
  · exact hcovers.gaps
  · rw [List.Nodup, List.pairwise_map]
    refine hcovers.strays_sorted.2.imp ?_
    intro first second hlt heq
    rw [heq] at hlt
    omega
  · exact hcovers.openString

end TokenStream

end Quill
