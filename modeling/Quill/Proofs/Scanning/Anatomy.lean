import Quill.Proofs.Scanning.Lexemes
import Quill.Proofs.Scanning.Places

/-!
# The anatomy of a text

To a scanner every text is made of lexemes with filler between them: blanks, comments and stray
characters.  `Filler` says what a stretch of filler looks like and which reports its stray
characters call for; `Covers` says that a stream of tokens was made from a text in this way.  Every
stream that scanning gives was made so (`startingAt_covers`), and that is all that later modules
need to know of the scanner's loops.
-/

namespace Quill

/-- The report of a character that starts no token, by its offset. -/
def Diagnostic.stray (file : String) (offset : Nat) (c : Char) : Diagnostic :=
  ⟨.unexpectedToken (String.singleton c), .within file offset (offset + c.utf8Size), .lexing⟩

/-- The text at an offset holds no token: it is made of blanks, of comments that run up to a newline
or to the end of all text, and of characters that start no lexeme.  What stands behind it is `rest`,
and each of the stray characters has a report, in order. -/
inductive Filler (file : String) (rest : List Char) : Nat → List Char → List Diagnostic → Prop
  | nil {offset : Nat} : Filler file rest offset [] []
  | blank {offset : Nat} {c : Char} {gap : List Char} {reports : List Diagnostic}
    (blank : Text.isBlank c = true)
    (more : Filler file rest (offset + c.utf8Size) gap reports) :
    Filler file rest offset (c :: gap) reports
  | comment {offset : Nat} {words gap : List Char} {reports : List Diagnostic}
    (line : '\n' ∉ words) (ends : ∀ c ∈ (gap ++ rest).head?, c = '\n')
    (more : Filler file rest (offset + Text.byteLength ('/' :: '/' :: words)) gap reports) :
    Filler file rest offset ('/' :: '/' :: (words ++ gap)) reports
  | stray {offset : Nat} {c : Char} {gap : List Char} {reports : List Diagnostic}
    (blank : Text.isBlank c = false) (opens : lexeme? (c :: (gap ++ rest)) = none)
    (more : Filler file rest (offset + c.utf8Size) gap reports) :
    Filler file rest offset (c :: gap) (.stray file offset c :: reports)

namespace Filler

variable {file : String} {rest : List Char}

/-- Filler behind filler is filler. -/
theorem append {offset : Nat} {gap more : List Char} {first second : List Diagnostic}
    (hgap : Filler file (more ++ rest) offset gap first)
    (hmore : Filler file rest (offset + Text.byteLength gap) more second) :
    Filler file rest offset (gap ++ more) (first ++ second) := by
  induction hgap with
  | nil => exact hmore
  | blank hblank _ ih =>
      rw [Text.byteLength_cons, ← Nat.add_assoc] at hmore
      exact .blank hblank (ih hmore)
  | @comment offset words gap reports hline hends _ ih =>
      have hoffset : offset + Text.byteLength ('/' :: '/' :: (words ++ gap)) =
          offset + Text.byteLength ('/' :: '/' :: words) + Text.byteLength gap := by
        simp only [Text.byteLength_cons, Text.byteLength_append]
        omega
      rw [hoffset] at hmore
      rw [List.cons_append, List.cons_append, List.append_assoc]
      rw [← List.append_assoc] at hends
      exact .comment hline hends (ih hmore)
  | stray hblank hopens _ ih =>
      rw [Text.byteLength_cons, ← Nat.add_assoc] at hmore
      rw [← List.append_assoc] at hopens
      exact .stray hblank hopens (ih hmore)

/-- The reports of filler are found while lexing. -/
theorem phase {offset : Nat} {gap : List Char} {reports : List Diagnostic}
    (h : Filler file rest offset gap reports) : ∀ report ∈ reports, report.phase = .lexing := by
  induction h with
  | nil => simp
  | blank _ _ ih => exact ih
  | comment _ _ _ ih => exact ih
  | stray _ _ _ ih =>
      intro report hreport
      rcases List.mem_cons.1 hreport with rfl | hreport
      · rfl
      · exact ih report hreport

end Filler

/-- Trivia lies within the text. -/
theorem triviaLength_le (flag : Bool) (cs : List Char) : triviaLength flag cs ≤ cs.length := by
  fun_induction triviaLength flag cs with
  | case1 => exact Nat.zero_le _
  | case2 c cs ih => exact Nat.succ_le_succ ih
  | case3 c cs _ ih => exact Nat.succ_le_succ ih
  | case4 c cs _ _ ih => exact Nat.succ_le_succ ih
  | case5 => exact Nat.zero_le _

/-- Behind trivia no more characters are left than in front of it. -/
theorem Cursor.length_after_skipTrivia_le (cursor : Cursor) :
    cursor.skipTrivia.after.length ≤ cursor.after.length := by
  rw [skipTrivia, after_advance, List.length_drop]
  omega

/-- All blanks in front of a text are trivia. -/
theorem isBlank_behind_trivia (flag : Bool) (cs : List Char) :
    ∀ c ∈ (cs.drop (triviaLength flag cs)).head?, Text.isBlank c = false := by
  fun_induction triviaLength flag cs with
  | case1 => simp
  | case2 c cs ih => exact ih
  | case3 c cs _ ih => exact ih
  | case4 c cs _ _ ih => exact ih
  | case5 c cs hblank _ =>
      intro d hd
      obtain rfl : c = d := by simpa using hd
      exact Bool.eq_false_iff.2 hblank

/-- Trivia in an open comment: what is left of the comment's line, and filler behind it. -/
structure LineThenFiller (file : String) (trivia rest : List Char) : Prop where
  split : ∃ words gap, trivia = words ++ gap ∧ '\n' ∉ words ∧
    (∀ c ∈ (gap ++ rest).head?, c = '\n') ∧ ∀ offset, Filler file rest offset gap []

/-- Trivia is filler, and calls for no report. -/
theorem filler_trivia (file : String) (flag : Bool) (cs : List Char) :
    if flag then
      LineThenFiller file (cs.take (triviaLength flag cs)) (cs.drop (triviaLength flag cs))
    else
      ∀ offset, Filler file (cs.drop (triviaLength flag cs)) offset
        (cs.take (triviaLength flag cs)) [] := by
  -- By induction along the text, for both places of the flag at once.
  fun_induction triviaLength flag cs with
  | case1 flag =>
      cases flag with
      | true => exact ⟨[], [], rfl, by simp, by simp, fun _ => .nil⟩
      | false => exact fun _ => .nil
  | case2 c cs ih =>
      by_cases hc : c = '\n'
      · subst hc
        -- The newline ends the comment, and is a blank of the filler behind it.
        have hfiller : ∀ offset, Filler file (cs.drop (triviaLength false cs)) offset
          (cs.take (triviaLength false cs)) [] := ih
        exact ⟨[], '\n' :: cs.take (triviaLength false cs), rfl, by simp, by simp,
          fun offset => .blank (by decide) (hfiller _)⟩
      · have hflag : (c != '\n') = true := by simpa using hc
        rw [hflag] at ih ⊢
        obtain ⟨words, gap, htrivia, hline, hends, hfiller⟩ :
          LineThenFiller file _ _ := ih
        refine ⟨c :: words, gap, ?_, ?_, hends, hfiller⟩
        · rw [List.take_succ_cons, htrivia, List.cons_append]
        · rw [List.mem_cons, not_or]
          exact ⟨Ne.symm hc, hline⟩
  | case3 c cs hblank ih =>
      have hfiller : ∀ offset, Filler file (cs.drop (triviaLength false cs)) offset
        (cs.take (triviaLength false cs)) [] := ih
      exact fun offset => .blank hblank (hfiller _)
  | case4 c cs _ hslashes ih =>
      rw [Bool.and_eq_true, beq_iff_eq, beq_iff_eq] at hslashes
      obtain ⟨rfl, hnext⟩ := hslashes
      obtain ⟨others, rfl⟩ := List.head?_eq_some_iff.1 hnext
      obtain ⟨words, gap, htrivia, hline, hends, hfiller⟩ : LineThenFiller file _ _ := ih
      -- The second slash is the first character of the open comment.
      intro offset
      cases words with
      | nil =>
          rw [triviaLength, List.take_succ_cons, List.nil_append] at htrivia
          rw [← htrivia] at hends
          exact absurd (hends '/' rfl) (by decide)
      | cons d words =>
          have hfirst := htrivia
          rw [triviaLength, List.take_succ_cons, List.cons_append] at hfirst
          obtain rfl := (List.cons.inj hfirst).1
          rw [List.take_succ_cons, htrivia]
          rw [List.mem_cons, not_or] at hline
          exact .comment hline.2 hends (hfiller _)
  | case5 => exact fun _ => .nil

namespace Scan

/-- The scan with further problems found before its own. -/
def behind (reports : List Diagnostic) (scan : Scan) : Scan :=
  { scan with problems := reports ++ scan.problems }

@[simp] theorem token_behind (reports : List Diagnostic) (scan : Scan) :
    (scan.behind reports).token = scan.token := rfl

@[simp] theorem problems_behind (reports : List Diagnostic) (scan : Scan) :
    (scan.behind reports).problems = reports ++ scan.problems := rfl

/-- What the next scan behind a cursor is: the end of the text or a lexeme, behind filler. -/
inductive Found (file : String) (cursor : Cursor) : Scan × Cursor → Prop
  | ending {gap : List Char} {reports : List Diagnostic} (after : cursor.after = gap)
    (filler : Filler file [] cursor.offset gap reports) :
    Found file cursor
      ((atEnd file (cursor.advance gap.length)).behind reports, cursor.advance gap.length)
  | lexeme {gap : List Char} {reports : List Diagnostic} {lexeme : Lexeme} {rest : List Char}
    (after : cursor.after = gap ++ (lexeme.text ++ rest))
    (filler : Filler file (lexeme.text ++ rest) cursor.offset gap reports)
    (read : lexeme? (lexeme.text ++ rest) = some lexeme) :
    Found file cursor
      ((ofLexeme file lexeme (cursor.advance gap.length)
          (cursor.advance (gap.length + lexeme.text.length))).behind reports,
        cursor.advance (gap.length + lexeme.text.length))

/-- What is found behind more filler is found. -/
theorem Found.behind {file : String} {cursor : Cursor} {gap : List Char}
    {reports : List Diagnostic} {found : Scan × Cursor} {rest : List Char}
    (hafter : cursor.after = gap ++ rest) (hgap : Filler file rest cursor.offset gap reports)
    (h : Found file (cursor.advance gap.length) found) :
    Found file cursor (found.1.behind reports, found.2) := by
  have hrest : (cursor.advance gap.length).after = rest := by
    rw [Cursor.after_advance, hafter, List.drop_left]
  have hoffset : (cursor.advance gap.length).offset = cursor.offset + Text.byteLength gap := by
    rw [Cursor.offset_advance, hafter, List.take_left]
  cases h with
  | @ending more further hmore hfiller =>
      rw [hrest] at hmore
      subst hmore
      rw [hoffset] at hfiller
      rw [← List.append_nil rest] at hgap
      have hend := Found.ending hafter (hgap.append hfiller)
      rw [List.length_append, ← Cursor.advance_advance] at hend
      simpa [Scan.behind] using hend
  | @lexeme more further lexeme last hmore hfiller hread =>
      rw [hrest] at hmore
      subst hmore
      rw [hoffset] at hfiller
      rw [← List.append_assoc] at hafter
      have hlexeme := Found.lexeme hafter (hgap.append hfiller) hread
      rw [List.length_append, Nat.add_assoc, ← Cursor.advance_advance, ← Cursor.advance_advance]
        at hlexeme
      simpa [Scan.behind] using hlexeme

/-- Behind the trivia in front of a cursor, what is found there is found. -/
theorem Found.behind_trivia {file : String} {cursor : Cursor} {found : Scan × Cursor}
    (h : Found file cursor.skipTrivia found) : Found file cursor found := by
  have hlength : (cursor.after.take (triviaLength false cursor.after)).length =
      triviaLength false cursor.after := by
    rw [List.length_take]
    have hle := triviaLength_le false cursor.after
    omega
  have hfiller : ∀ offset, Filler file _ offset _ [] := filler_trivia file false cursor.after
  rw [Cursor.skipTrivia, ← hlength] at h
  exact h.behind (List.take_append_drop _ _).symm (hfiller _)

/-- A bound above the number of characters left is enough to find the next token. -/
theorem next_found (file : String) {bound : Nat} {cursor : Cursor}
    (hbound : cursor.after.length < bound) : Found file cursor (next file bound cursor) := by
  induction bound generalizing cursor with
  | zero => omega
  | succ bound ih =>
      apply Found.behind_trivia
      have hblank := isBlank_behind_trivia false cursor.after
      have hshorter := cursor.length_after_skipTrivia_le
      rw [← Cursor.after_advance] at hblank
      change ∀ c ∈ cursor.skipTrivia.after.head?, _ at hblank
      rw [next]
      generalize cursor.skipTrivia = first at hblank hshorter ⊢
      cases hafter : first.after with
      | nil => exact Found.ending hafter .nil
      | cons c rest =>
          cases hread : lexeme? (c :: rest) with
          | some lexeme =>
              obtain ⟨last, htext, -⟩ := lexeme?_stands hread
              rw [htext] at hafter hread
              have hnone : Filler file (lexeme.text ++ last) first.offset [] [] := .nil
              have hlexeme := Found.lexeme hafter hnone hread
              rw [List.length_nil, Nat.zero_add] at hlexeme
              simp only [hread, htext]
              exact hlexeme
          | none =>
              -- The stray character is filler of its own in front of what is found next.
              have hstray : Filler file rest first.offset [c] [.stray file first.offset c] := by
                rw [hafter] at hblank
                exact .stray (hblank c rfl) hread .nil
              have hnext : Found file (first.advance 1) (next file bound (first.advance 1)) := by
                apply ih
                rw [hafter] at hshorter
                rw [Cursor.after_advance, hafter, List.drop_succ_cons, List.drop_zero]
                rw [List.length_cons] at hshorter
                omega
              have hreport : strayCharacter file c first (first.advance 1) =
                  .stray file first.offset c := by
                have hoffset : (first.advance 1).offset = first.offset + c.utf8Size := by
                  rw [Cursor.offset_advance, hafter]
                  simp
                rw [strayCharacter, hoffset]
                rfl
              rw [← List.singleton_append] at hafter
              have hfound := Found.behind hafter hstray hnext
              rw [← hreport] at hfound
              simp only [hread]
              exact hfound

end Scan

namespace TokenStream

/-- The stream is made from the text behind a cursor: of its lexemes, with filler around them. -/
inductive Covers (file : String) : Cursor → TokenStream → Prop
  | ending {cursor : Cursor} {gap : List Char} {reports : List Diagnostic}
    (after : cursor.after = gap) (filler : Filler file [] cursor.offset gap reports) :
    Covers file cursor ⟨[], (Scan.atEnd file (cursor.advance gap.length)).behind reports⟩
  | lexeme {cursor : Cursor} {gap : List Char} {reports : List Diagnostic} {lexeme : Lexeme}
    {rest : List Char} {others : TokenStream} (after : cursor.after = gap ++ (lexeme.text ++ rest))
    (filler : Filler file (lexeme.text ++ rest) cursor.offset gap reports)
    (read : lexeme? (lexeme.text ++ rest) = some lexeme)
    (more : Covers file (cursor.advance (gap.length + lexeme.text.length)) others) :
    Covers file cursor
      ⟨(Scan.ofLexeme file lexeme (cursor.advance gap.length)
          (cursor.advance (gap.length + lexeme.text.length))).behind reports :: others.scans,
        others.final⟩

end TokenStream

/-- The kind of a token is that of its lexeme. -/
@[simp] theorem Scan.kind_ofLexeme (file : String) (lexeme : Lexeme) (first last : Cursor) :
    (ofLexeme file lexeme first last).token.kind = lexeme.kind := by
  simp only [ofLexeme]
  split <;> rfl

/-- A token has the value of its lexeme. -/
theorem Scan.value_ofLexeme {file : String} {lexeme : Lexeme} {first last : Cursor} :
    (ofLexeme file lexeme first last).token.value = String.ofList lexeme.value := by
  simp only [ofLexeme]
  split <;> rfl

/-- The problems of a lexeme are found while lexing. -/
theorem Scan.phase_ofLexeme {file : String} {lexeme : Lexeme} {first last : Cursor} :
    ∀ problem ∈ (ofLexeme file lexeme first last).problems, problem.phase = .lexing := by
  intro problem hproblem
  simp only [ofLexeme] at hproblem
  split at hproblem
  · split at hproblem
    · obtain rfl := List.mem_singleton.1 hproblem
      rfl
    · cases hproblem
  · cases hproblem

/-- A lexeme is never the end of a text. -/
theorem Lexeme.kind_ne_endOfInput {cs : List Char} {lexeme : Lexeme}
    (hread : lexeme? cs = some lexeme) : lexeme.kind ≠ .endOfInput := by
  cases cs with
  | nil => cases hread
  | cons c cs => exact (lexeme?_start hread).kind

namespace TokenStream

/-- A bound above the number of characters left is enough to scan the text behind a cursor. -/
theorem startingAt_covers (file : String) {bound : Nat} {cursor : Cursor}
    (hbound : cursor.after.length < bound) : Covers file cursor (startingAt file bound cursor) := by
  induction bound generalizing cursor with
  | zero => omega
  | succ bound ih =>
      have hfound := Scan.next_found file hbound
      rw [startingAt]
      generalize Scan.next file (bound + 1) cursor = found at hfound ⊢
      cases hfound with
      | ending hafter hfiller => exact .ending hafter hfiller
      | @lexeme gap reports lexeme rest hafter hfiller hread =>
          have hkind : (lexeme.kind == .endOfInput) = false :=
            beq_eq_false_iff_ne.2 (Lexeme.kind_ne_endOfInput hread)
          have hsome : lexeme.text.length ≠ 0 := by
            rw [Ne, List.length_eq_zero_iff]
            exact Lexeme.text_ne_nil hread
          simp only [Scan.token_behind, Scan.kind_ofLexeme, hkind]
          apply Covers.lexeme hafter hfiller hread
          apply ih
          rw [hafter] at hbound
          rw [Cursor.after_advance, hafter, List.length_drop]
          simp only [List.length_append] at hbound ⊢
          omega

/-- All problems of the stream are found while lexing. -/
def Lexical (stream : TokenStream) : Prop :=
  ∀ scan ∈ stream.scans ++ [stream.final], ∀ problem ∈ scan.problems, problem.phase = .lexing

/-- All problems of scanning are found while lexing. -/
theorem Covers.lexical {file : String} {cursor : Cursor} {stream : TokenStream}
    (h : Covers file cursor stream) : stream.Lexical := by
  induction h with
  | ending _ hfiller =>
      intro scan hscan problem hproblem
      obtain rfl := List.mem_singleton.1 hscan
      rw [Scan.problems_behind, Scan.atEnd, List.append_nil] at hproblem
      exact hfiller.phase problem hproblem
  | lexeme _ hfiller _ _ ih =>
      intro scan hscan problem hproblem
      rcases List.mem_cons.1 hscan with rfl | hscan
      · rw [Scan.problems_behind] at hproblem
        rcases List.mem_append.1 hproblem with hproblem | hproblem
        · exact hfiller.phase problem hproblem
        · exact Scan.phase_ofLexeme problem hproblem
      · exact ih scan hscan problem hproblem

/-- The stream of a text is made from the whole of it. -/
theorem ofText_covers (file text : String) :
    Covers file (.start text.toList) (ofText file text) :=
  startingAt_covers file (Nat.lt_succ_self _)

end TokenStream

end Quill
