import Quill.Proofs.Layout
import Quill.Proofs.Scanning.Pulls
import Quill.Proofs.Tandem.Places

/-!
# A text in front of another one

`Lexes` says what scanning finds in a text without problems: trivia and a lexeme, again and again,
and trivia before the end.  It tells how a text is scanned that stands behind another one and a
newline.  A newline goes on with no lexeme and ends a comment, so the tokens of the text in front
are found first, and behind them those of the other text, moved on by the bytes in front of it.  Of
where lines start, only the first token of the other text can see what is in front of it.
-/

namespace Quill

/-! ### Scanning without problems -/

/-- The tokens behind a cursor, where scanning finds no problem. -/
inductive Lexes (file : String) : Cursor → TokenStream → Prop
  | done {cursor : Cursor} (last : cursor.skipTrivia.after = []) :
    Lexes file cursor ⟨[], .atEnd file cursor.skipTrivia⟩
  | lexeme {cursor : Cursor} {lexeme : Lexeme} {others : TokenStream}
    (read : lexeme? cursor.skipTrivia.after = some lexeme) (closed : lexeme.isUnterminated = false)
    (rest : Lexes file (cursor.skipTrivia.advance lexeme.text.length) others) :
    Lexes file cursor
      ⟨.ofLexeme file lexeme cursor.skipTrivia (cursor.skipTrivia.advance lexeme.text.length) ::
        others.scans, others.final⟩

/-- What is found in front of a text that starts with a lexeme. -/
theorem Scan.next_of_lexeme (file : String) (bound : Nat) {cursor : Cursor} {lexeme : Lexeme}
    (hread : lexeme? cursor.skipTrivia.after = some lexeme) :
    next file (bound + 1) cursor =
      (ofLexeme file lexeme cursor.skipTrivia (cursor.skipTrivia.advance lexeme.text.length),
        cursor.skipTrivia.advance lexeme.text.length) := by
  rw [next]
  simp only
  split
  · next hnil =>
      rw [hnil] at hread
      cases hread
  · next hcons => rw [← hcons, hread]

/-- Behind a lexeme fewer characters are left. -/
theorem Cursor.length_after_lexeme {cursor : Cursor} {lexeme : Lexeme}
    (hread : lexeme? cursor.skipTrivia.after = some lexeme) :
    (cursor.skipTrivia.advance lexeme.text.length).after.length < cursor.after.length := by
  have hle := cursor.length_after_skipTrivia_le
  have hsome := List.length_pos_iff.2 (Lexeme.text_ne_nil hread)
  have hleft : cursor.skipTrivia.after ≠ [] := by
    intro hnil
    rw [hnil] at hread
    cases hread
  have hpos := List.length_pos_iff.2 hleft
  rw [after_advance, List.length_drop]
  omega

/-- A lexeme that is no problem is closed. -/
theorem Scan.closed_of_problems {file : String} {lexeme : Lexeme} {first last : Cursor}
    (h : (ofLexeme file lexeme first last).problems = []) : lexeme.isUnterminated = false := by
  simp only [ofLexeme] at h
  split at h
  · split at h
    · cases h
    · next hclosed => exact Bool.eq_false_iff.2 hclosed
  · next hkind =>
      rw [Lexeme.isUnterminated, Bool.eq_false_iff.2 hkind]
      rfl

namespace TokenStream

/-- What scanning finds is found one lexeme after the other, if it finds no problem. -/
theorem lexes_startingAt (file : String) {bound : Nat} {cursor : Cursor}
    (hbound : cursor.after.length < bound)
    (hquiet : (startingAt file bound cursor).diagnostics = []) :
    Lexes file cursor (startingAt file bound cursor) := by
  induction bound generalizing cursor with
  | zero => omega
  | succ bound ih =>
      cases hafter : cursor.skipTrivia.after with
      | nil =>
          have hnext : Scan.next file (bound + 1) cursor =
              (.atEnd file cursor.skipTrivia, cursor.skipTrivia) := by
            rw [Scan.next]
            simp only [hafter]
          rw [startingAt, hnext]
          exact .done hafter
      | cons c rest =>
          cases hread : lexeme? (c :: rest) with
          | none =>
              -- A character that starts no token is a problem.
              have hproblems : (Scan.next file (bound + 1) cursor).1.problems ≠ [] := by
                rw [Scan.next]
                simp only [hafter, hread]
                exact List.cons_ne_nil _ _
              rw [startingAt] at hquiet
              simp only at hquiet
              split at hquiet
              · exact absurd hquiet hproblems
              · exact absurd (List.append_eq_nil_iff.1
                  (List.append_eq_nil_iff.1 hquiet).1).1 hproblems
          | some lexeme =>
              rw [← hafter] at hread
              have hnext := Scan.next_of_lexeme file bound hread
              have hkind : (lexeme.kind == .endOfInput) = false :=
                beq_eq_false_iff_ne.2 (Lexeme.kind_ne_endOfInput hread)
              have hfewer := Cursor.length_after_lexeme hread
              rw [startingAt, hnext] at hquiet ⊢
              simp only [Scan.kind_ofLexeme, hkind] at hquiet ⊢
              obtain ⟨hscans, hfinal⟩ := List.append_eq_nil_iff.1 hquiet
              obtain ⟨hfirst, hothers⟩ := List.append_eq_nil_iff.1 hscans
              refine .lexeme hread (Scan.closed_of_problems hfirst) (ih (by omega) ?_)
              exact List.append_eq_nil_iff.2 ⟨hothers, hfinal⟩

/-- What is read one lexeme after the other is what scanning finds. -/
theorem startingAt_of_lexes {file : String} {cursor : Cursor} {stream : TokenStream}
    (h : Lexes file cursor stream) {bound : Nat} (hbound : cursor.after.length < bound) :
    startingAt file bound cursor = stream := by
  induction h generalizing bound with
  | done hlast =>
      obtain ⟨bound, rfl⟩ := Nat.exists_eq_add_one_of_ne_zero (Nat.ne_zero_of_lt hbound)
      rw [startingAt, Scan.next]
      simp only [hlast]
      rfl
  | lexeme hread _ _ ih =>
      obtain ⟨bound, rfl⟩ := Nat.exists_eq_add_one_of_ne_zero (Nat.ne_zero_of_lt hbound)
      have hfewer := Cursor.length_after_lexeme hread
      have hkind := beq_eq_false_iff_ne.2 (Lexeme.kind_ne_endOfInput hread)
      rw [startingAt, Scan.next_of_lexeme file bound hread]
      simp only [Scan.kind_ofLexeme, hkind]
      rw [ih (by omega)]
      rfl

/-- A text that is read one lexeme after the other has no problem. -/
theorem diagnostics_of_lexes {file : String} {cursor : Cursor} {stream : TokenStream}
    (h : Lexes file cursor stream) : stream.diagnostics = [] := by
  induction h with
  | done => rfl
  | lexeme _ hclosed _ ih =>
      obtain ⟨hothers, hfinal⟩ := List.append_eq_nil_iff.1 ih
      refine List.append_eq_nil_iff.2 ⟨?_, hfinal⟩
      rw [List.flatMap_cons, Scan.problems_ofLexeme _ hclosed, hothers, List.append_nil]

end TokenStream

/-! ### A newline behind a text -/

/-- A newline belongs to no run of other characters. -/
theorem takeWhile_before {p : Char → Bool} {c : Char} (hc : p c = false) (front back : List Char) :
    (front ++ c :: back).takeWhile p = front.takeWhile p ∧
      (front ++ c :: back).dropWhile p = front.dropWhile p ++ c :: back := by
  induction front with
  | nil => simp [hc]
  | cons d front ih =>
      cases hd : p d with
      | true => simpa [hd] using ih
      | false => simp [hd]

namespace Lexeme

theorem number_before_newline (front back : List Char) :
    number (front ++ '\n' :: back) = number front := by
  obtain ⟨htake, hdrop⟩ := takeWhile_before (p := Char.isDigit) (c := '\n') rfl front back
  rw [number, number, htake, hdrop]
  cases front.dropWhile Char.isDigit with
  | nil => rfl
  | cons c rest =>
      by_cases hpoint : c = '.'
      · obtain ⟨hmore, -⟩ := takeWhile_before (p := Char.isDigit) (c := '\n') rfl rest back
        subst hpoint
        simp only [List.cons_append, hmore]
      · simp [hpoint]

theorem mark?_before_newline {front back : List Char} {lexeme : Lexeme}
    (hread : mark? front = some lexeme) : mark? (front ++ '\n' :: back) = some lexeme := by
  unfold mark? at hread
  split at hread
  all_goals
    cases hread
    try rfl
  -- the marks that an equals sign would lengthen
  all_goals
    next rest hother =>
      rcases rest with _ | ⟨c, rest⟩
      · rfl
      · have hc : c ≠ '=' := by
          rintro rfl
          exact hother rest rfl
        simp [mark?, hc]

end Lexeme

/-- A newline goes on with no lexeme but an open string. -/
theorem lexeme?_before_newline {front : List Char} {lexeme : Lexeme}
    (hread : lexeme? front = some lexeme) (hclosed : lexeme.isUnterminated = false)
    (back : List Char) : lexeme? (front ++ '\n' :: back) = some lexeme := by
  cases front with
  | nil => cases hread
  | cons c front =>
      simp only [lexeme?, List.cons_append] at hread ⊢
      by_cases hstart : Lexeme.isWordStart c
      · rw [if_pos hstart] at hread ⊢
        obtain ⟨htake, -⟩ := takeWhile_before
          (Lexeme.isWordPart_of_isBlank (c := '\n') (by decide)) (c :: front) back
        rw [← hread, Lexeme.word, Lexeme.word, ← htake]
        rfl
      rw [if_neg hstart] at hread ⊢
      by_cases hdigit : c.isDigit
      · rw [if_pos hdigit] at hread ⊢
        rw [← List.cons_append, Lexeme.number_before_newline, hread]
      rw [if_neg hdigit] at hread ⊢
      by_cases hquote : c == '"'
      · rw [if_pos hquote] at hread ⊢
        have hterminated : front.contains '"' := by
          obtain rfl := Option.some.inj hread
          have hthrough : (Lexeme.throughQuote front).contains '"' := by
            simpa [Lexeme.isUnterminated] using hclosed
          rcases Lexeme.throughQuote_cases front with ⟨rest, hfront, -⟩ | ⟨-, hall⟩
          · rw [hfront]
            simp
          · rwa [hall] at hthrough
        rw [Lexeme.throughQuote_append hterminated, hread]
      rw [if_neg hquote] at hread ⊢
      exact Lexeme.mark?_before_newline hread

/-- Trivia that ends within a text ends there also in front of a newline.  Otherwise it goes on
behind the newline, which ends a comment. -/
theorem triviaLength_before_newline (flag : Bool) (front back : List Char) :
    triviaLength flag (front ++ '\n' :: back) =
      if triviaLength flag front = front.length then front.length + (triviaLength false back + 1)
      else triviaLength flag front := by
  fun_induction triviaLength flag front with
  | case1 flag => cases flag <;> simp [triviaLength, show Text.isBlank '\n' = true from rfl]
  | case2 c cs ih =>
      rw [List.cons_append, triviaLength, ih]
      simp only [List.length_cons, Nat.add_right_cancel_iff]
      split <;> omega
  | case3 c cs hblank ih =>
      rw [List.cons_append, triviaLength, if_pos hblank, ih]
      simp only [List.length_cons, Nat.add_right_cancel_iff]
      split <;> omega
  | case4 c cs hblank hslash ih =>
      have hnext : (c == '/' && (cs ++ '\n' :: back).head? == some '/') = true := by
        cases cs with
        | nil => simp at hslash
        | cons d cs => exact hslash
      rw [List.cons_append, triviaLength, if_neg hblank, if_pos hnext, ih]
      simp only [List.length_cons, Nat.add_right_cancel_iff]
      split <;> omega
  | case5 c cs hblank hslash =>
      have hnext : ¬(c == '/' && (cs ++ '\n' :: back).head? == some '/') = true := by
        cases cs with
        | nil => simp
        | cons d cs => exact hslash
      rw [List.cons_append, triviaLength, if_neg hblank, if_neg hnext]
      simp

/-! ### Where lines start -/

namespace Trivia

/-- A line break is a newline. -/
theorem mem_of_ofChars {cs : List Char} (h : ofChars cs = .lineBreak) : '\n' ∈ cs := by
  induction cs with
  | nil => cases h
  | cons c cs ih =>
      rw [ofChars] at h
      split at h
      · next hc => simp [beq_iff_eq.1 hc]
      · split at h
        · split at h
          · next hmore => exact List.mem_cons_of_mem c (ih hmore)
          · cases h
        · cases h

/-- Behind a character that is no blank one cannot look. -/
theorem ofChars_append {cs : List Char} (h : ∃ c ∈ cs, Text.isBlank c = false)
    (more : List Char) : ofChars (cs ++ more) = ofChars cs := by
  induction cs with
  | nil => simp at h
  | cons c cs ih =>
      rw [List.cons_append, ofChars, ofChars]
      split
      · rfl
      · split
        · next hblank =>
            obtain ⟨d, hd, hother⟩ := h
            rcases List.mem_cons.1 hd with rfl | hd
            · rw [hother] at hblank
              cases hblank
            · rw [ih ⟨d, hd, hother⟩]
        · rfl

/-- What follows trivia at the start of a line starts a line too: a comment ends with its line. -/
theorem ofChars_behind_trivia (flag : Bool) (cs before : List Char)
    (hstart : flag = false → ofChars before = .lineBreak)
    (hmore : cs.drop (triviaLength flag cs) ≠ []) :
    ofChars ((cs.take (triviaLength flag cs)).reverse ++ before) = .lineBreak := by
  fun_induction triviaLength flag cs generalizing before with
  | case1 => simp at hmore
  | case2 c cs ih =>
      have hrest := ih (c :: before) (by
        intro hnewline
        obtain rfl : c = '\n' := by simpa using hnewline
        rfl) hmore
      simpa using hrest
  | case3 c cs hblank ih =>
      have hrest := ih (c :: before) (by
        intro _
        rw [ofChars, hstart rfl]
        split
        · rfl
        · rfl) hmore
      simpa using hrest
  | case4 c cs _ _ ih =>
      have hrest := ih (c :: before) (by simp) hmore
      simpa using hrest
  | case5 => exact hstart rfl

end Trivia

/-- A token starts a line if a line break stands before it. -/
theorem Scan.startsLine_ofLexeme (file : String) (lexeme : Lexeme) (first last : Cursor) :
    (ofLexeme file lexeme first last).token.startsLine =
      (Trivia.ofChars first.before == .lineBreak) := by
  simp only [ofLexeme]
  split <;> rfl

/-! ### Behind other characters -/

namespace Cursor

/-- The same place in a text, and behind other characters. -/
structure Behind (front : List Char) (cursor whole : Cursor) : Prop where
  before : whole.before = cursor.before ++ front
  after : whole.after = cursor.after

namespace Behind

variable {front : List Char} {cursor whole : Cursor}

theorem advance (h : Behind front cursor whole) (count : Nat) :
    Behind front (cursor.advance count) (whole.advance count) where
  before := by rw [before_advance, before_advance, h.before, h.after, List.append_assoc]
  after := by rw [after_advance, after_advance, h.after]

theorem skipTrivia (h : Behind front cursor whole) :
    Behind front cursor.skipTrivia whole.skipTrivia := by
  rw [Cursor.skipTrivia, Cursor.skipTrivia, h.after]
  exact h.advance _

theorem offset (h : Behind front cursor whole) :
    whole.offset = cursor.offset + Text.byteLength front := by
  rw [whole.offset_eq, cursor.offset_eq, h.before, Text.byteLength_append]

end Behind

end Cursor

/-- The span of a lexeme between two offsets. -/
def Lexeme.spanBetween (file : String) (lexeme : Lexeme) (start stop : Nat) : Span :=
  if lexeme.kind == .stringLiteral then
    .within file (start + 1) (start + 1 + Text.byteLength lexeme.value)
  else
    .within file start stop

theorem Lexeme.spanBetween_shift (file : String) (lexeme : Lexeme) (start stop bytes : Nat) :
    lexeme.spanBetween file (start + bytes) (stop + bytes) =
      (lexeme.spanBetween file start stop).moved (.shift bytes) := by
  rw [spanBetween, spanBetween]
  split
  · rw [Nat.add_right_comm start, Nat.add_right_comm (start + 1)]
    rfl
  · rfl

namespace Scan

/-- The token of a lexeme, moved to another place. -/
theorem moved_ofLexeme (file : String) (lexeme : Lexeme) (first last : Cursor)
    (move : Relocation) :
    (ofLexeme file lexeme first last).token.moved move =
      ⟨lexeme.kind, String.ofList lexeme.value,
        (lexeme.spanBetween file first.offset last.offset).moved move, .adjacent, .adjacent⟩ := by
  simp only [ofLexeme, Lexeme.spanBetween]
  split <;> rfl

theorem moved_ofLexeme_behind {front : List Char} {first first' last last' : Cursor}
    (hfirst : first.Behind front first') (hlast : last.Behind front last') (file : String)
    (lexeme : Lexeme) :
    (ofLexeme file lexeme first' last').token.moved .still =
      (ofLexeme file lexeme first last).token.moved (.shift (Text.byteLength front)) := by
  rw [moved_ofLexeme, moved_ofLexeme, hfirst.offset, hlast.offset, Lexeme.spanBetween_shift,
    Span.moved_still]

theorem moved_atEnd_behind {front : List Char} {cursor whole : Cursor}
    (h : cursor.Behind front whole) (file : String) :
    (atEnd file whole).token.moved .still =
      (atEnd file cursor).token.moved (.shift (Text.byteLength front)) := by
  change Token.mk .endOfInput "EOF" (.within file whole.offset whole.offset) _ _ = _
  rw [h.offset]
  rfl

end Scan

/-- The tokens of a stream are those of another one, moved on. -/
structure TokenStream.Shifted (bytes : Nat) (stream moved : TokenStream) : Prop where
  scans : moved.scans.map (·.token.moved .still) =
    stream.scans.map (·.token.moved (.shift bytes))
  final : moved.final.token.moved .still = stream.final.token.moved (.shift bytes)

/-- Behind other characters the same lexemes are read.  Where lines start is the same if a character
that is no blank stands between. -/
theorem Lexes.behind {file : String} {cursor : Cursor} {stream : TokenStream}
    (h : Lexes file cursor stream) {front : List Char} {whole : Cursor}
    (hbehind : cursor.Behind front whole) (hstop : ∃ c ∈ cursor.before, Text.isBlank c = false) :
    ∃ moved, Lexes file whole moved ∧ stream.Shifted (Text.byteLength front) moved ∧
      moved.scans.map (·.token.startsLine) = stream.scans.map (·.token.startsLine) := by
  induction h generalizing whole with
  | done hlast =>
      have hskip := hbehind.skipTrivia
      exact ⟨_, .done (hskip.after.trans hlast), ⟨rfl, Scan.moved_atEnd_behind hskip file⟩, rfl⟩
  | @lexeme cursor lexeme others hread hclosed _ ih =>
      have hskip := hbehind.skipTrivia
      have hnext := hskip.advance lexeme.text.length
      obtain ⟨c, hc, hother⟩ := hstop
      have hfirst : c ∈ cursor.skipTrivia.before := by simp [Cursor.skipTrivia, hc]
      have hlater : c ∈ (cursor.skipTrivia.advance lexeme.text.length).before := by simp [hfirst]
      obtain ⟨moved, hlexes, hshifted, hlines⟩ := ih hnext ⟨c, hlater, hother⟩
      refine ⟨_, .lexeme (by rw [hskip.after, hread]) hclosed hlexes, ⟨?_, hshifted.final⟩, ?_⟩
      · simp only [List.map_cons, hshifted.scans, Scan.moved_ofLexeme_behind hskip hnext]
      · simp only [List.map_cons, hlines, Scan.startsLine_ofLexeme, hskip.before,
          Trivia.ofChars_append ⟨c, hfirst, hother⟩]

/-- A lexeme is no blank. -/
theorem Cursor.stop_behind_lexeme {cursor : Cursor} {lexeme : Lexeme}
    (hread : lexeme? cursor.after = some lexeme) :
    ∃ c ∈ (cursor.advance lexeme.text.length).before, Text.isBlank c = false := by
  obtain ⟨rest, hafter, -⟩ := lexeme?_stands hread
  cases hcons : cursor.after with
  | nil =>
      rw [hcons] at hread
      cases hread
  | cons c cs =>
      rw [hcons] at hread
      have hstart := lexeme?_start hread
      have hmem : c ∈ lexeme.text := List.mem_of_mem_head? hstart.head
      refine ⟨c, ?_, hstart.blank⟩
      rw [before_advance, hafter, List.take_left]
      simp [hmem]

/-- Behind a newline the same lexemes are read, and the first one starts a line. -/
theorem Lexes.behind_newline {file : String} {text : List Char} {stream : TokenStream}
    (h : Lexes file (.start text) stream) {front : List Char} {whole : Cursor}
    (hbehind : (Cursor.start text).Behind ('\n' :: front) whole) :
    ∃ moved, Lexes file whole moved ∧ stream.Shifted (Text.byteLength ('\n' :: front)) moved ∧
      moved.scans.map (·.token.startsLine) =
        (stream.scans.map (·.token.startsLine)).modifyHead fun _ => true := by
  have hskip := hbehind.skipTrivia
  cases h with
  | done hlast =>
      exact ⟨_, .done (hskip.after.trans hlast), ⟨rfl, Scan.moved_atEnd_behind hskip file⟩, rfl⟩
  | @lexeme _ lexeme others hread hclosed hrest =>
      have hnext := hskip.advance lexeme.text.length
      have hleft : text.drop (triviaLength false text) ≠ [] := by
        intro hnil
        rw [Cursor.skipTrivia, Cursor.after_advance] at hread
        change lexeme? (text.drop (triviaLength false text)) = _ at hread
        rw [hnil] at hread
        cases hread
      have hstarts : Trivia.ofChars whole.skipTrivia.before = .lineBreak := by
        have hline := Trivia.ofChars_behind_trivia false text ('\n' :: front) (fun _ => rfl) hleft
        rw [hskip.before, Cursor.skipTrivia, Cursor.before_advance, List.append_assoc]
        exact hline
      have hstop := Cursor.stop_behind_lexeme hread
      obtain ⟨moved, hlexes, hshifted, hlines⟩ := hrest.behind hnext hstop
      refine ⟨_, .lexeme (by rw [hskip.after, hread]) hclosed hlexes, ⟨?_, hshifted.final⟩, ?_⟩
      · simp only [List.map_cons, hshifted.scans, Scan.moved_ofLexeme_behind hskip hnext]
      · simp only [List.map_cons, hlines, Scan.startsLine_ofLexeme, hstarts, List.modifyHead_cons]
        rfl

/-! ### In front of a newline -/

namespace Cursor

/-- The same place in a text and in a longer one, which goes on behind the text with a newline.
The place behind the newline is `next`. -/
structure InLine (cursor next whole : Cursor) : Prop where
  before : whole.before = cursor.before
  after : whole.after = cursor.after ++ '\n' :: next.after
  next : next.before = '\n' :: cursor.text.reverse

namespace InLine

variable {next cursor whole : Cursor}

theorem advance (h : cursor.InLine next whole) {count : Nat}
    (hcount : count ≤ cursor.after.length) :
    (cursor.advance count).InLine next (whole.advance count) where
  before := by
    rw [before_advance, before_advance, h.before, h.after, List.take_append_of_le_length hcount]
  after := by rw [after_advance, after_advance, h.after, List.drop_append_of_le_length hcount]
  next := by rw [text_advance, h.next]

theorem offset (h : cursor.InLine next whole) : whole.offset = cursor.offset := by
  rw [whole.offset_eq, cursor.offset_eq, h.before]

/-- Trivia that ends within the text. -/
theorem skipTrivia (h : cursor.InLine next whole) (hmore : cursor.skipTrivia.after ≠ []) :
    cursor.skipTrivia.InLine next whole.skipTrivia := by
  have hlength : triviaLength false cursor.after ≠ cursor.after.length := by
    intro hall
    apply hmore
    rw [Cursor.skipTrivia, after_advance, hall, List.drop_length]
  have hskip := h.advance (triviaLength_le false cursor.after)
  rw [Cursor.skipTrivia, Cursor.skipTrivia, h.after, triviaLength_before_newline, if_neg hlength]
  exact hskip

/-- Trivia that goes on behind the text. -/
theorem skipTrivia_eq (h : cursor.InLine next whole) (hend : cursor.skipTrivia.after = []) :
    whole.skipTrivia = next.skipTrivia := by
  have hlength : triviaLength false cursor.after = cursor.after.length := by
    have hle := triviaLength_le false cursor.after
    rw [Cursor.skipTrivia, after_advance, List.drop_eq_nil_iff] at hend
    omega
  apply ext_chars
  · rw [Cursor.skipTrivia, Cursor.skipTrivia, before_advance, before_advance, h.after,
      triviaLength_before_newline, if_pos hlength, h.before, h.next, List.take_length_add_append]
    simp [text]
  · rw [Cursor.skipTrivia, Cursor.skipTrivia, after_advance, after_advance, h.after,
      triviaLength_before_newline, if_pos hlength, List.drop_length_add_append]
    rfl

end InLine

end Cursor

/-- What is read behind trivia does not depend on where the trivia begins. -/
theorem Lexes.of_skipTrivia_eq {file : String} {cursor other : Cursor} {stream : TokenStream}
    (h : Lexes file cursor stream) (heq : other.skipTrivia = cursor.skipTrivia) :
    Lexes file other stream := by
  cases h with
  | done hlast =>
      rw [← heq] at hlast ⊢
      exact .done hlast
  | lexeme hread hclosed hrest =>
      rw [← heq] at hread hrest ⊢
      exact .lexeme hread hclosed hrest

/-- No token of a line starts a line. -/
theorem Lexes.startsLine_eq_false {file : String} {cursor : Cursor} {stream : TokenStream}
    (h : Lexes file cursor stream) (hline : '\n' ∉ cursor.text) :
    ∀ scan ∈ stream.scans, scan.token.startsLine = false := by
  induction h with
  | done => simp
  | @lexeme cursor lexeme others _ _ _ ih =>
      have hskip : cursor.skipTrivia.text = cursor.text := Cursor.text_advance _ _
      intro scan hscan
      rcases List.mem_cons.1 hscan with rfl | hscan
      · rw [Scan.startsLine_ofLexeme, beq_eq_false_iff_ne]
        intro hbreak
        have hmem := Trivia.mem_of_ofChars hbreak
        rw [← hskip] at hline
        exact hline (by simp [Cursor.text, hmem])
      · rw [← hskip] at hline
        exact ih (by rwa [Cursor.text_advance]) scan hscan

/-- In front of a newline the lexemes of a text are read first, and then those behind the
newline. -/
theorem Lexes.inLine {file : String} {cursor : Cursor} {stream : TokenStream}
    (h : Lexes file cursor stream) {next whole : Cursor} {others : TokenStream}
    (hwhole : cursor.InLine next whole) (hothers : Lexes file next others) :
    ∃ joined, Lexes file whole joined ∧ joined.final = others.final ∧
      joined.scans.map (·.token.moved .still) =
        stream.scans.map (·.token.moved .still) ++ others.scans.map (·.token.moved .still) ∧
      joined.scans.map (·.token.startsLine) =
        stream.scans.map (·.token.startsLine) ++ others.scans.map (·.token.startsLine) := by
  induction h generalizing whole with
  | done hlast =>
      exact ⟨others, hothers.of_skipTrivia_eq (hwhole.skipTrivia_eq hlast), rfl, rfl, rfl⟩
  | @lexeme cursor lexeme _ hread hclosed _ ih =>
      obtain ⟨rest, hafter, -⟩ := lexeme?_stands hread
      have hmore : cursor.skipTrivia.after ≠ [] := by
        intro hnil
        rw [hnil] at hread
        cases hread
      have hskip := hwhole.skipTrivia hmore
      have hnext := hskip.advance (show lexeme.text.length ≤ _ by simp [hafter])
      obtain ⟨joined, hlexes, hfinal, htokens, hlines⟩ := ih hnext
      have hread' : lexeme? whole.skipTrivia.after = some lexeme := by
        rw [hskip.after]
        exact lexeme?_before_newline hread hclosed next.after
      refine ⟨_, .lexeme hread' hclosed hlexes, hfinal, ?_, ?_⟩
      · simp only [List.map_cons, List.cons_append, htokens, Scan.moved_ofLexeme, hskip.offset,
          hnext.offset]
      · simp only [List.map_cons, List.cons_append, hlines, Scan.startsLine_ofLexeme, hskip.before]

/-! ### A whole text behind another one -/

/-- The tokens of a text behind another one: those of the text in front, and those of the text
behind it, moved on by a number of bytes.  Only the first token of the text behind starts a line if
it did not before. -/
structure TokenStream.Joins (bytes : Nat) (front text joined : TokenStream) : Prop where
  scans : joined.scans.map (·.token.moved .still) =
    front.scans.map (·.token.moved .still) ++ text.scans.map (·.token.moved (.shift bytes))
  final : joined.final.token.moved .still = text.final.token.moved (.shift bytes)
  lines : joined.scans.map (·.token.startsLine) = front.scans.map (·.token.startsLine) ++
    (text.scans.map (·.token.startsLine)).modifyHead fun _ => true

/-- Two texts with a newline between them are scanned as if the one stood alone and the other one
stood further on. -/
theorem TokenStream.ofText_joins {file front text : String}
    (hquiet : (ofText file front).diagnostics = [])
    (hquiet' : (ofText file text).diagnostics = []) :
    Joins (Text.byteLength front.toList + 1) (ofText file front) (ofText file text)
        (ofText file (front ++ "\n" ++ text)) ∧
      (ofText file (front ++ "\n" ++ text)).diagnostics = [] := by
  have hfirst : Lexes file (.start front.toList) (ofText file front) :=
    lexes_startingAt file (Nat.lt_succ_self _) hquiet
  have hsecond : Lexes file (.start text.toList) (ofText file text) :=
    lexes_startingAt file (Nat.lt_succ_self _) hquiet'
  have hchars : (front ++ "\n" ++ text).toList = front.toList ++ '\n' :: text.toList := by simp
  -- the place behind the newline
  obtain ⟨next, hbefore, hafter⟩ : ∃ next : Cursor,
      next.before = '\n' :: front.toList.reverse ∧ next.after = text.toList :=
    ⟨⟨_, _, _, rfl⟩, rfl, rfl⟩
  have hbehind : (Cursor.start text.toList).Behind ('\n' :: front.toList.reverse) next :=
    ⟨hbefore, hafter⟩
  have hinLine : (Cursor.start front.toList).InLine next
      (.start (front.toList ++ '\n' :: text.toList)) :=
    ⟨rfl, by rw [hafter]; rfl, hbefore⟩
  obtain ⟨others, hothers, hshifted, hstarts⟩ := hsecond.behind_newline hbehind
  obtain ⟨joined, hjoined, hfinal, htokens, hlines⟩ := hfirst.inLine hinLine hothers
  have hbytes : Text.byteLength ('\n' :: front.toList.reverse) =
      Text.byteLength front.toList + 1 := by
    rw [Text.byteLength_cons, Text.byteLength_reverse, Nat.add_comm]
    rfl
  have hwhole : ofText file (front ++ "\n" ++ text) = joined := by
    rw [ofText, hchars]
    exact startingAt_of_lexes hjoined (Nat.lt_succ_self _)
  rw [hbytes] at hshifted
  rw [hwhole]
  refine ⟨⟨?_, ?_, ?_⟩, diagnostics_of_lexes hjoined⟩
  · rw [htokens, hshifted.scans]
  · rw [hfinal, hshifted.final]
  · rw [hlines, hstarts]

/-- In a text of one line, no token starts a line. -/
theorem TokenStream.startsLine_ofText {file line : String} (hline : '\n' ∉ line.toList)
    (hquiet : (ofText file line).diagnostics = []) :
    ∀ scan ∈ (ofText file line).scans, scan.token.startsLine = false :=
  (lexes_startingAt file (Nat.lt_succ_self _) hquiet).startsLine_eq_false hline

end Quill
