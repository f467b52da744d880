import Mathlib.Data.List.TakeWhile
import Mathlib.Order.Bounds.Defs
import Quill.Proofs.Scanning.Coverage
import Quill.Proofs.Scanning.Joining

/-!
# Where lines start

A token starts a line if a newline stands between it and the lexeme nearest before it; characters
that start no token count as lexemes here.  Scanning reads this off the blanks right before the
token, without a look at what the characters before them belong to.  That is enough: a comment ends
with a newline, which is one of those blanks, and neither a lexeme nor a stray character ends with
a blank.
-/

namespace Quill

/-- The characters end with one that is no blank. -/
def Text.EndsVisibly (cs : List Char) : Prop :=
  ∃ front last, cs = front ++ [last] ∧ isBlank last = false

namespace TokenStream

/-- The stretches of text that hold the lexemes of a stream: its tokens with their quotes, and the
characters that are reported because they start no token. -/
def lexemeSpans (text : List Char) (stream : TokenStream) : List Span :=
  stream.scans.map (·.token.extent text) ++
    (stream.diagnostics.filter (·.problem.isUnexpectedToken)).map (·.span)

/-- The places up to a given one at which a lexeme stops, and the origin of the text with them. -/
def stopsUpTo (text : List Char) (stream : TokenStream) (origin place : Nat) : Set Nat :=
  {stop | (stop = origin ∨ ∃ span ∈ stream.lexemeSpans text, span.stop.offset = stop) ∧
    stop ≤ place}

/-- The token starts a line just if there is a newline between the nearest lexeme before it, or the
origin if there is none, and its own first character. -/
def MarksLine (text : List Char) (stream : TokenStream) (origin : Nat) (token : Token) : Prop :=
  ∃ stop gap,
    IsGreatest (stream.stopsUpTo text origin (token.extent text).start.offset) stop ∧
    Text.slice? stop (token.extent text).start.offset text = some gap ∧
    (token.startsLine = true ↔ '\n' ∈ gap)

end TokenStream

/-! ### Looking back from a token -/

namespace Trivia

/-- Blanks are looked through. -/
theorem ofChars_cons_of_blank {c : Char} (hblank : Text.isBlank c = true) (cs : List Char) :
    ofChars (c :: cs) = .lineBreak ↔ c = '\n' ∨ ofChars cs = .lineBreak := by
  rw [ofChars]
  by_cases hc : c = '\n'
  · simp [hc]
  · cases ofChars cs <;> simp [hc, hblank]

/-- A character that is no blank stops the look back. -/
theorem ofChars_cons_of_visible {c : Char} (hvisible : Text.isBlank c = false) (cs : List Char) :
    ofChars (c :: cs) = .adjacent := by
  have hc : c ≠ '\n' := by
    rintro rfl
    exact absurd hvisible (by decide)
  simp [ofChars, hc, hvisible]

end Trivia

namespace Text.EndsVisibly

/-- What stands before does not matter for the end. -/
theorem behind {cs : List Char} (h : EndsVisibly cs) (more : List Char) :
    EndsVisibly (more ++ cs) := by
  obtain ⟨front, last, rfl, hvisible⟩ := h
  exact ⟨more ++ front, last, (List.append_assoc _ _ _).symm, hvisible⟩

theorem ofChars_reverse {cs : List Char} (h : EndsVisibly cs) (before : List Char) :
    Trivia.ofChars (cs.reverse ++ before) = .adjacent := by
  obtain ⟨front, last, rfl, hvisible⟩ := h
  rw [List.reverse_concat, List.cons_append]
  exact Trivia.ofChars_cons_of_visible hvisible _

end Text.EndsVisibly

namespace Lexeme

/-- A word has no blank in it. -/
theorem isBlank_of_isWordPart {c : Char} (hpart : isWordPart c = true) :
    Text.isBlank c = false := by
  rw [Bool.eq_false_iff]
  intro hblank
  rw [isWordPart_of_isBlank hblank] at hpart
  cases hpart

/-- A number has no blank in it. -/
theorem isBlank_of_isDigit {c : Char} (hdigit : c.isDigit = true) : Text.isBlank c = false := by
  rw [Bool.eq_false_iff]
  intro hblank
  rw [Text.isDigit_of_isBlank hblank] at hdigit
  cases hdigit

/-- A mark has no blank in it. -/
theorem mark?_visible {cs : List Char} {lexeme : Lexeme} (hread : mark? cs = some lexeme) :
    (lexeme.text.all fun c => !Text.isBlank c) = true := by
  unfold mark? at hread
  split at hread
  all_goals
    cases hread
    try rfl

/-- Only strings have blanks in them. -/
theorem isBlank_of_mem_text {cs : List Char} {lexeme : Lexeme} (hread : lexeme? cs = some lexeme)
    (hkind : lexeme.kind ≠ .stringLiteral) : ∀ c ∈ lexeme.text, Text.isBlank c = false := by
  cases cs with
  | nil => cases hread
  | cons first cs =>
      simp only [lexeme?] at hread
      split at hread
      · cases hread
        intro c hc
        exact isBlank_of_isWordPart (List.mem_takeWhile_imp hc)
      · split at hread
        · cases hread
          have hwhole : ∀ c ∈ (first :: cs).takeWhile Char.isDigit, Text.isBlank c = false :=
            fun c hc => isBlank_of_isDigit (List.mem_takeWhile_imp hc)
          rcases number_cases (first :: cs) with h | ⟨decimals, -, hdecimals, h⟩
          · rw [h]
            exact hwhole
          · rw [h]
            intro c hc
            rcases List.mem_append.1 hc with hc | hc
            · exact hwhole c hc
            · rcases List.mem_cons.1 hc with rfl | hc
              · decide
              · exact isBlank_of_isDigit (hdecimals c hc)
        · split at hread
          · cases hread
            exact absurd rfl hkind
          · intro c hc
            have hall := List.all_eq_true.1 (mark?_visible hread) c hc
            simpa using hall

/-- A lexeme starts with a character that is no blank. -/
theorem startsVisibly {cs : List Char} {lexeme : Lexeme} (hread : lexeme? cs = some lexeme) :
    ∃ c ∈ cs.head?, Text.isBlank c = false := by
  cases cs with
  | nil => cases hread
  | cons c cs => exact ⟨c, rfl, (lexeme?_start hread).blank⟩

/-- A lexeme ends with a character that is no blank, but for a string that runs to the end. -/
theorem endsVisibly {lexeme : Lexeme} {rest : List Char}
    (hread : lexeme? (lexeme.text ++ rest) = some lexeme) :
    rest = [] ∨ Text.EndsVisibly lexeme.text := by
  obtain ⟨last, htext, hstands⟩ := lexeme?_stands hread
  obtain rfl : rest = last := List.append_cancel_left htext
  cases hstands with
  | plain hkind _ =>
      have hsome := text_ne_nil hread
      refine .inr ⟨_, _, (List.dropLast_concat_getLast hsome).symm, ?_⟩
      exact isBlank_of_mem_text hread hkind _ (List.getLast_mem hsome)
  | closed inner _ heq =>
      subst heq
      exact .inr ⟨'"' :: inner, '"', rfl, by decide⟩
  | unclosed _ _ _ hlast => exact .inl hlast

end Lexeme

/-! ### Filler behind its last stray character -/

namespace Filler

variable {file : String} {rest gap : List Char} {offset : Nat} {reports : List Diagnostic}

/-- A stray character stops within the filler. -/
theorem report_stop (h : Filler file rest offset gap reports) :
    ∀ report ∈ reports, offset < report.span.stop.offset ∧
      report.span.stop.offset ≤ offset + Text.byteLength gap := by
  induction h with
  | nil => simp
  | blank _ _ ih =>
      intro report hreport
      have hstop := ih report hreport
      rw [Text.byteLength_cons]
      omega
  | comment _ _ _ ih =>
      intro report hreport
      have hstop := ih report hreport
      simp only [Text.byteLength_cons, Text.byteLength_append] at hstop ⊢
      omega
  | @stray offset c gap reports _ _ _ ih =>
      have hsize := c.utf8Size_pos
      intro report hreport
      rw [Text.byteLength_cons]
      rcases List.mem_cons.1 hreport with rfl | hreport
      · change offset < offset + c.utf8Size ∧ offset + c.utf8Size ≤ _
        omega
      · have hstop := ih report hreport
        omega

/-- Filler with a stray character: behind the last one of them there is filler without. -/
structure LastStray (file : String) (rest : List Char) (offset : Nat) (gap : List Char)
    (reports : List Diagnostic) : Prop where
  split : ∃ front tail, gap = front ++ tail ∧ Text.EndsVisibly front ∧
    Filler file rest (offset + Text.byteLength front) tail [] ∧
    IsGreatest {stop | ∃ report ∈ reports, report.span.stop.offset = stop}
      (offset + Text.byteLength front)

theorem LastStray.behind (more : List Char)
    (h : LastStray file rest (offset + Text.byteLength more) gap reports) :
    LastStray file rest offset (more ++ gap) reports := by
  obtain ⟨front, tail, rfl, hvisible, htail, hgreatest⟩ := h
  rw [Nat.add_assoc, ← Text.byteLength_append] at htail hgreatest
  exact ⟨more ++ front, tail, (List.append_assoc _ _ _).symm, hvisible.behind more, htail,
    hgreatest⟩

theorem LastStray.cons {report : Diagnostic}
    (hreport : ∀ other ∈ reports, report.span.stop.offset ≤ other.span.stop.offset)
    (h : LastStray file rest offset gap reports) :
    LastStray file rest offset gap (report :: reports) := by
  obtain ⟨front, tail, hgap, hvisible, htail, ⟨last, hlast, hstop⟩, hbound⟩ := h
  refine ⟨front, tail, hgap, hvisible, htail, ⟨last, List.mem_cons_of_mem _ hlast, hstop⟩, ?_⟩
  rintro stop ⟨other, hother, rfl⟩
  rcases List.mem_cons.1 hother with rfl | hother
  · rw [← hstop]
    exact hreport last hlast
  · exact hbound ⟨other, hother, rfl⟩

/-- Filler has no stray character, or a last one. -/
theorem lastStray (h : Filler file rest offset gap reports) :
    reports = [] ∨ LastStray file rest offset gap reports := by
  induction h with
  | nil => exact .inl rfl
  | @blank offset c gap reports _ _ ih =>
      exact ih.imp_right fun hlast => hlast.behind [c]
  | @comment offset words gap reports _ _ _ ih =>
      exact ih.imp_right fun hlast => hlast.behind ('/' :: '/' :: words)
  | @stray offset c gap reports hblank _ hmore ih =>
      right
      rcases ih with rfl | hlast
      · refine ⟨[c], gap, rfl, ⟨[], c, rfl, hblank⟩, hmore, ⟨_, List.mem_singleton_self _, rfl⟩, ?_⟩
        rintro stop ⟨report, hreport, rfl⟩
        obtain rfl := List.mem_singleton.1 hreport
        exact Nat.le_refl _
      · have hfirst : LastStray file rest offset (c :: gap) reports := hlast.behind [c]
        apply hfirst.cons
        intro other hother
        exact Nat.le_of_lt (hmore.report_stop other hother).1

/-- Behind filler without stray characters, a line break is seen if there is a newline in it or
one was seen before it. -/
theorem ofChars_reverse (h : Filler file rest offset gap reports) (hquiet : reports = [])
    (hrest : ∃ c ∈ rest.head?, Text.isBlank c = false) (before : List Char) :
    Trivia.ofChars (gap.reverse ++ before) = .lineBreak ↔
      '\n' ∈ gap ∨ Trivia.ofChars before = .lineBreak := by
  induction h generalizing before with
  | nil => simp
  | @blank offset c gap reports hblank _ ih =>
      rw [List.reverse_cons, List.append_assoc, List.singleton_append, ih hquiet,
        Trivia.ofChars_cons_of_blank hblank, List.mem_cons, eq_comm, or_left_comm, or_assoc]
  | @comment offset words gap reports _ hends _ ih =>
      -- the comment ends with its line, in the filler
      have hnewline : '\n' ∈ gap := by
        cases gap with
        | nil =>
            obtain ⟨c, hc, hvisible⟩ := hrest
            obtain rfl := hends c hc
            exact absurd hvisible (by decide)
        | cons d gap =>
            obtain rfl := hends d rfl
            exact List.mem_cons_self
      have hseen := (ih hquiet (('/' :: '/' :: words).reverse ++ before)).2 (.inl hnewline)
      rw [← List.append_assoc, ← List.reverse_append] at hseen
      exact ⟨fun _ => .inl (by simp [hnewline]), fun _ => hseen⟩
  | stray => cases hquiet

/-- In front of a lexeme, a line break is seen just if there is a newline in the filler behind its
last stray character, or in all of it if there is none. -/
theorem lineBreak_iff (h : Filler file rest offset gap reports)
    (hrest : ∃ c ∈ rest.head?, Text.isBlank c = false) {before : List Char}
    (hbefore : Trivia.ofChars before = .adjacent) :
    ∃ front tail, gap = front ++ tail ∧
      IsGreatest {stop | stop = offset ∨ ∃ report ∈ reports, report.span.stop.offset = stop}
        (offset + Text.byteLength front) ∧
      (Trivia.ofChars (gap.reverse ++ before) = .lineBreak ↔ '\n' ∈ tail) := by
  rcases h.lastStray with rfl | ⟨front, tail, rfl, hvisible, htail, hstop, hbound⟩
  · refine ⟨[], gap, rfl, ⟨.inl rfl, ?_⟩, ?_⟩
    · rintro stop (rfl | ⟨report, hreport, -⟩)
      · exact Nat.le_refl _
      · cases hreport
    · rw [h.ofChars_reverse rfl hrest, hbefore]
      simp
  · refine ⟨front, tail, rfl, ⟨.inr hstop, ?_⟩, ?_⟩
    · rintro stop (rfl | hstray)
      · exact Nat.le_add_right _ _
      · exact hbound hstray
    · rw [List.reverse_append, List.append_assoc, htail.ofChars_reverse rfl hrest,
        hvisible.ofChars_reverse]
      simp

end Filler

/-! ### The stream of a text -/

namespace TokenStream

namespace Covers

variable {file : String} {cursor : Cursor} {stream : TokenStream} {gap rest : List Char}
  {reports : List Diagnostic} {lexeme : Lexeme}

/-- The lexemes of a stream with one more lexeme in front, behind filler. -/
theorem mem_lexemeSpans_cons (hafter : cursor.after = gap ++ (lexeme.text ++ rest))
    (hfiller : Filler file (lexeme.text ++ rest) cursor.offset gap reports)
    (hread : lexeme? (lexeme.text ++ rest) = some lexeme) (others : TokenStream) (span : Span) :
    span ∈ lexemeSpans cursor.text
        ⟨(Scan.ofLexeme file lexeme (cursor.advance gap.length)
          (cursor.advance (gap.length + lexeme.text.length))).behind reports :: others.scans,
        others.final⟩ ↔
      span = .within file (cursor.advance gap.length).offset
          (cursor.advance (gap.length + lexeme.text.length)).offset ∨
        (∃ report ∈ reports, report.span = span) ∨ span ∈ others.lexemeSpans cursor.text := by
  rw [lexemeSpans, filter_unexpected_cons hafter hfiller hread, List.map_cons, Scan.token_behind,
    (lies hafter hread).extent, List.map_append, lexemeSpans]
  simp only [List.cons_append, List.mem_cons, List.mem_append, List.mem_map]
  exact or_congr_right or_left_comm

/-- The offsets in front of a lexeme and behind it. -/
theorem offset_lexeme (hafter : cursor.after = gap ++ (lexeme.text ++ rest))
    (hread : lexeme? (lexeme.text ++ rest) = some lexeme) :
    (cursor.advance gap.length).offset = cursor.offset + Text.byteLength gap ∧
      (cursor.advance gap.length).offset <
        (cursor.advance (gap.length + lexeme.text.length)).offset := by
  have hsome := Text.byteLength_pos (Lexeme.text_ne_nil hread)
  have hfirst := cursor.offset_advance gap.length
  have hlast := (cursor.advance gap.length).offset_advance lexeme.text.length
  rw [hafter, List.take_left] at hfirst
  rw [Cursor.after_advance, hafter, List.drop_left, List.take_left, Cursor.advance_advance] at hlast
  exact ⟨hfirst, by omega⟩

/-- A token starts at its lexeme, a string at its opening quote. -/
theorem start_lexeme (hafter : cursor.after = gap ++ (lexeme.text ++ rest))
    (hread : lexeme? (lexeme.text ++ rest) = some lexeme) :
    ((Scan.ofLexeme file lexeme (cursor.advance gap.length)
      (cursor.advance (gap.length + lexeme.text.length))).token.extent cursor.text).start.offset =
        (cursor.advance gap.length).offset := by
  rw [(lies hafter hread).extent]
  rfl

/-- The lexemes stop behind the cursor. -/
theorem stops_behind (h : Covers file cursor stream) :
    ∀ span ∈ stream.lexemeSpans cursor.text, cursor.offset < span.stop.offset := by
  induction h with
  | @ending cursor gap reports _ hfiller =>
      intro span hspan
      rw [lexemeSpans, diagnostics_atEnd, hfiller.filter_unexpected, List.map_nil,
        List.nil_append] at hspan
      obtain ⟨report, hreport, rfl⟩ := List.mem_map.1 hspan
      exact (hfiller.report_stop report hreport).1
  | lexeme hafter hfiller hread _ ih =>
      rw [Cursor.text_advance] at ih
      obtain ⟨hfirst, hlast⟩ := offset_lexeme hafter hread
      intro span hspan
      rcases (mem_lexemeSpans_cons hafter hfiller hread _ span).1 hspan with
        rfl | ⟨report, hreport, rfl⟩ | hspan
      · exact Nat.lt_of_le_of_lt (hfirst ▸ Nat.le_add_right _ _) hlast
      · exact (hfiller.report_stop report hreport).1
      · have hstop := ih span hspan
        omega

/-- The token of a lexeme behind filler. -/
theorem marksLine_first (hafter : cursor.after = gap ++ (lexeme.text ++ rest))
    (hfiller : Filler file (lexeme.text ++ rest) cursor.offset gap reports)
    (hread : lexeme? (lexeme.text ++ rest) = some lexeme) {others : TokenStream}
    (hmore : Covers file (cursor.advance (gap.length + lexeme.text.length)) others)
    (hbefore : Trivia.ofChars cursor.before = .adjacent) :
    MarksLine cursor.text
      ⟨(Scan.ofLexeme file lexeme (cursor.advance gap.length)
          (cursor.advance (gap.length + lexeme.text.length))).behind reports :: others.scans,
        others.final⟩ cursor.offset
      (Scan.ofLexeme file lexeme (cursor.advance gap.length)
        (cursor.advance (gap.length + lexeme.text.length))).token := by
  obtain ⟨hfirst, hlast⟩ := offset_lexeme hafter hread
  have hvisible := Lexeme.startsVisibly hread
  obtain ⟨front, tail, rfl, ⟨hstop, hbound⟩, hline⟩ := hfiller.lineBreak_iff hvisible hbefore
  have hothers := hmore.stops_behind
  rw [Cursor.text_advance] at hothers
  rw [MarksLine, start_lexeme hafter hread]
  refine ⟨cursor.offset + Text.byteLength front, tail, ⟨⟨?_, ?_⟩, ?_⟩, ?_, ?_⟩
  · refine hstop.imp_right ?_
    rintro ⟨report, hreport, hoffset⟩
    exact ⟨report.span,
      (mem_lexemeSpans_cons hafter hfiller hread _ _).2 (.inr (.inl ⟨report, hreport, rfl⟩)),
      hoffset⟩
  · rw [hfirst, Text.byteLength_append]
    omega
  · rintro stop ⟨rfl | ⟨span, hspan, rfl⟩, hplace⟩
    · exact hbound (.inl rfl)
    · rcases (mem_lexemeSpans_cons hafter hfiller hread _ span).1 hspan with
        rfl | ⟨report, hreport, rfl⟩ | hspan
      · exact absurd hlast (Nat.not_lt.2 hplace)
      · exact hbound (.inr ⟨report, hreport, rfl⟩)
      · have hlater := hothers span hspan
        omega
  · have hslice := (cursor.advance front.length).slice?_advance tail.length
    rw [Cursor.text_advance, Cursor.advance_advance, ← List.length_append, Cursor.offset_advance,
      Cursor.after_advance, hafter, List.append_assoc, List.take_left, List.drop_left,
      List.take_left] at hslice
    exact hslice
  · rw [Scan.startsLine_ofLexeme, beq_iff_eq, ← hline, Cursor.before_advance, hafter,
      List.take_left]

/-- A lexeme in front makes no difference for the tokens behind it. -/
theorem marksLine_behind (hafter : cursor.after = gap ++ (lexeme.text ++ rest))
    (hfiller : Filler file (lexeme.text ++ rest) cursor.offset gap reports)
    (hread : lexeme? (lexeme.text ++ rest) = some lexeme) {others : TokenStream} {token : Token}
    (hlater : (cursor.advance (gap.length + lexeme.text.length)).offset ≤
      (token.extent cursor.text).start.offset)
    (h : MarksLine cursor.text others (cursor.advance (gap.length + lexeme.text.length)).offset
      token) :
    MarksLine cursor.text
      ⟨(Scan.ofLexeme file lexeme (cursor.advance gap.length)
          (cursor.advance (gap.length + lexeme.text.length))).behind reports :: others.scans,
        others.final⟩ cursor.offset token := by
  obtain ⟨hfirst, hlast⟩ := offset_lexeme hafter hread
  obtain ⟨stop, between, ⟨⟨hstop, hplace⟩, hbound⟩, hslice, hline⟩ := h
  have hmem := mem_lexemeSpans_cons hafter hfiller hread others
  refine ⟨stop, between, ⟨⟨.inr ?_, hplace⟩, ?_⟩, hslice, hline⟩
  · rcases hstop with rfl | ⟨span, hspan, rfl⟩
    · exact ⟨_, (hmem _).2 (.inl rfl), rfl⟩
    · exact ⟨span, (hmem span).2 (.inr (.inr hspan)), rfl⟩
  · have hnext := hbound ⟨.inl rfl, hlater⟩
    rintro earlier ⟨rfl | ⟨span, hspan, rfl⟩, hearlier⟩
    · omega
    · rcases (hmem span).1 hspan with rfl | ⟨report, hreport, rfl⟩ | hspan
      · exact hnext
      · have hwithin := (hfiller.report_stop report hreport).2
        omega
      · exact hbound ⟨.inr ⟨span, hspan, rfl⟩, hearlier⟩

/-- Every token of a lexeme starts a line just if a newline stands before it. -/
theorem marksLine (h : Covers file cursor stream)
    (hbefore : Trivia.ofChars cursor.before = .adjacent ∨ cursor.after = []) :
    ∀ scan ∈ stream.scans, MarksLine cursor.text stream cursor.offset scan.token := by
  induction h with
  | ending => simp
  | @lexeme cursor gap reports lexeme rest others hafter hfiller hread hmore ih =>
      have hsome := Lexeme.text_ne_nil hread
      intro scan hscan
      rcases List.mem_cons.1 hscan with rfl | hscan
      · refine marksLine_first hafter hfiller hread hmore (hbefore.resolve_right ?_)
        rw [hafter]
        simp [hsome]
      · have hlater := hmore.extents_behind scan.token
          (List.mem_append_left _ (List.mem_map_of_mem hscan))
        rw [Cursor.text_advance] at ih hlater
        refine marksLine_behind hafter hfiller hread hlater (ih ?_ scan hscan)
        rcases Lexeme.endsVisibly hread with rfl | hvisible
        · right
          rw [Cursor.after_advance, hafter]
          simp
        · left
          have hbehind := hvisible.behind gap
          rw [Cursor.before_advance, hafter, ← List.append_assoc, ← List.length_append,
            List.take_left]
          exact hbehind.ofChars_reverse cursor.before

end Covers

/-- In every text, a token starts a line just if there is a newline between its first character and
the lexeme nearest before it, or the start of the text if there is none. -/
theorem ofText_marksLine (file text : String) :
    ∀ token ∈ (ofText file text).tokens, token.kind ≠ .endOfInput →
      MarksLine text.toList (ofText file text) 0 token := by
  have hcovers := ofText_covers file text
  intro token htoken hkind
  rcases List.mem_append.1 htoken with htoken | htoken
  · obtain ⟨scan, hscan, rfl⟩ := List.mem_map.1 htoken
    exact hcovers.marksLine (.inl rfl) scan hscan
  · obtain rfl := List.mem_singleton.1 htoken
    exact absurd hcovers.ends.1 hkind

/-- Behind a stray character on its line a word starts no line, and a string on the next line
starts one. -/
theorem ofText_marksLine_behind_stray :
    let stream := ofText "a" "a // end\n@ b\n\"c\""
    let word : Token := ⟨.identifier, "b", .within "a" 11 12, .blank, .lineBreak⟩
    let quoted : Token := ⟨.stringLiteral, "c", .within "a" 14 15, .lineBreak, .adjacent⟩
    word ∈ stream.tokens ∧ quoted ∈ stream.tokens ∧
      word.startsLine = false ∧ quoted.startsLine = true ∧
      MarksLine "a // end\n@ b\n\"c\"".toList stream 0 word ∧
      MarksLine "a // end\n@ b\n\"c\"".toList stream 0 quoted := by
  intro stream word quoted
  have hword : word ∈ stream.tokens := by decide +kernel
  have hquoted : quoted ∈ stream.tokens := by decide +kernel
  exact ⟨hword, hquoted, by decide, by decide, ofText_marksLine "a" _ word hword (by decide),
    ofText_marksLine "a" _ quoted hquoted (by decide)⟩

end TokenStream

end Quill
