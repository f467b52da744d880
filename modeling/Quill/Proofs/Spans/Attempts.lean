import Quill.Proofs.Spans.Statements

/-!
# The order and the number of syntax problems

The problems of parsing are recorded in the order of the text.  There is at most one for each time a
statement is tried, and as no two tries begin at the same token, there are no more of them than the
text has tokens.
-/

namespace Quill

/-- There are no more rising numbers than there is room for. -/
theorem Rises.length_le {lower upper : Nat} {numbers : List Nat} (h : Rises 1 lower upper numbers) :
    numbers.length ≤ upper - lower := by
  induction numbers generalizing lower with
  | nil => exact Nat.zero_le _
  | cons number others ih =>
      obtain ⟨hbehind, hpairwise⟩ := List.pairwise_cons.1 h.pairwise
      have hothers : Rises 1 (number + 1) upper others :=
        ⟨hpairwise, fun other hother =>
          ⟨hbehind other hother, (h.between other (List.mem_cons_of_mem _ hother)).2⟩⟩
      have hlength := ih hothers
      have hnumber := h.between number List.mem_cons_self
      rw [List.length_cons]
      omega

/-- Problems of parsing are no notes. -/
theorem Diagnostic.filter_isSyntactic_plain (diagnostics : List Diagnostic) :
    (diagnostics.filter (!·.isNote)).filter isSyntactic = diagnostics.filter isSyntactic := by
  rw [List.filter_filter]
  apply List.filter_congr
  intro diagnostic _
  rw [isSyntactic, isNote]
  cases diagnostic.phase <;> rfl

/-- The tokens of a text, without the one for the end. -/
theorem TokenStream.tokens_filter_ofText (file text : String) :
    (ofText file text).tokens.filter (·.kind != .endOfInput) =
      (ofText file text).scans.map (·.token) := by
  have hsound := Parser.sound_ofText file text 0
  have hends : (ofText file text).final.token.kind = .endOfInput := hsound.ends
  rw [tokens, List.filter_append, List.filter_cons_of_neg (by simp [hends]), List.filter_nil,
    List.append_nil]
  apply List.filter_eq_self.2
  intro token htoken
  obtain ⟨scan, hscan, rfl⟩ := List.mem_map.1 htoken
  exact bne_iff_ne.2 (hsound.others scan hscan)

/-- A text is read to its end, where each of its tokens has been taken once. -/
theorem Parser.consumed_readNoting (file text : String) (source : Nat) :
    (readNoting file text source).2.consumed =
      ((TokenStream.ofText file text).tokens.filter (·.kind != .endOfInput)).length := by
  let first := ofText file text source
  let last := (first.statements .standard (first.remaining + 1)).2
  have hsound : first.Sound := sound_ofText file text source
  have hunrolls : Parse.Unrolls (statementsStep .standard) (statements .standard) := fun _ => rfl
  obtain ⟨hreaches, hend⟩ : first.Reaches last ∧ last.atEnd = true :=
    (alike_statements Grammar.standard_stopsAtEnd hunrolls hunrolls hsound (Nat.lt_succ_self _)
      (Nat.lt_succ_self _)).2
  obtain ⟨-, hsame, -⟩ := readNoting_follows file text source
  have hlast : last = (readNoting file text source).2.plain := congrArg Prod.snd hsame
  have hnone := (hreaches.sound hsound).atEnd_iff.1 hend
  have hsum := hreaches.consumed_add_remaining hsound
  have hzero : first.consumed = 0 := rfl
  have hall : first.remaining = (TokenStream.ofText file text).scans.length := rfl
  rw [hlast, consumed_plain] at hsum
  rw [hlast] at hnone
  rw [TokenStream.tokens_filter_ofText, List.length_map]
  omega

/-- The tokens at which statements of a text are tried, in the order in which they are tried, each
given by the number of tokens before it. -/
def attempts (file text : String) (source : Nat) : List Nat :=
  ((Parser.readNoting file text source).2.recorded.filter Diagnostic.isNote).map Diagnostic.begins

/-- The syntax problems of every text are recorded in the order of the text, and there are no more
of them than tokens.  Reading that notes down where statements are tried is plain reading but for
the notes.  Statements are tried at tokens of the text, no two at the same one, and each try leaves
one syntax problem at the most. -/
theorem parse_syntax_ordered (file text : String) (source : Nat) :
    let problems := (parse file text source).diagnostics.filter (·.phase == .parsing)
    let tokens := (TokenStream.ofText file text).tokens.filter (·.kind != .endOfInput)
    let run := Parser.readNoting file text source
    problems.Pairwise (fun first second => first.span.start.offset ≤ second.span.start.offset) ∧
      problems.length ≤ tokens.length ∧
      parse file text source = ⟨run.1, run.2.recorded.filter (!·.isNote)⟩ ∧
      problems.length ≤ (attempts file text source).length ∧
      (attempts file text source).Pairwise (· < ·) ∧
      ∀ index ∈ attempts file text source, index < tokens.length := by
  intro problems tokens run
  obtain ⟨hleads, -, -⟩ := Parser.readNoting_follows file text source
  obtain ⟨added, hadded⟩ := hleads.adds
  have hscanned := Parser.scanned_ofText file text source
  -- What is in view at the start is of scanning, so all syntax problems and notes are added.
  have hproblems : problems = added.filter Diagnostic.isSyntactic := by
    show (parse file text source).diagnostics.filter Diagnostic.isSyntactic = _
    rw [parse_eq_readNoting, Diagnostic.filter_isSyntactic_plain, hadded.recorded,
      List.filter_append, hscanned.filter_isSyntactic, List.nil_append]
  have hattempts : attempts file text source =
      (added.filter Diagnostic.isNote).map Diagnostic.begins := by
    rw [attempts, hadded.recorded, List.filter_append, hscanned.filter_isNote, List.nil_append]
  have hnotes : Rises 1 0 tokens.length (attempts file text source) := by
    have hrises := hadded.notes
    rwa [← hattempts, Parser.consumed_readNoting] at hrises
  have hlength := hnotes.length_le
  have hfewer : problems.length ≤ (attempts file text source).length := by
    rw [hproblems, hattempts, List.length_map]
    exact hadded.fewer
  refine ⟨?_, by omega, parse_eq_readNoting file text source, hfewer, hnotes.pairwise, ?_⟩
  · rw [hproblems]
    exact List.pairwise_map.1 hadded.syntactic.pairwise
  · exact fun index hindex => (hnotes.between index hindex).2

end Quill
