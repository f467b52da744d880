import Quill.Proofs.Scanning.Anatomy

/-!
# Asking for tokens one at a time

A reader may ask for the next token again and again instead of scanning the whole text first.  It
gets the same tokens with the same problems, and behind the last of them the token for the end, as
often as it asks, without any problem.
-/

namespace Quill

/-- The bound on stray characters does not matter if it exceeds the number of characters left. -/
theorem Scan.next_eq_next (file : String) {bound bound' : Nat} {cursor : Cursor}
    (hbound : cursor.after.length < bound) (hbound' : cursor.after.length < bound') :
    next file bound cursor = next file bound' cursor := by
  induction bound generalizing bound' cursor with
  | zero => omega
  | succ bound ih =>
      cases bound' with
      | zero => omega
      | succ bound' =>
          have hshorter := cursor.length_after_skipTrivia_le
          rw [next, next]
          generalize cursor.skipTrivia = first at hshorter ⊢
          cases hafter : first.after with
          | nil => rfl
          | cons c rest =>
              cases hread : lexeme? (c :: rest) with
              | some lexeme => simp only [hread]
              | none =>
                  have hfewer : (first.advance 1).after.length < cursor.after.length := by
                    rw [hafter, List.length_cons] at hshorter
                    rw [Cursor.after_advance, hafter, List.drop_succ_cons, List.drop_zero]
                    omega
                  have hrest : next file bound (first.advance 1) =
                      next file bound' (first.advance 1) :=
                    ih (by omega) (by omega)
                  simp only [hread, hrest]

namespace Cursor

/-- The scans that a reader gets who asks for a number of tokens, one after the other. -/
def pulls (file : String) : Nat → Cursor → List Scan
  | 0, _ => []
  | count + 1, cursor =>
    let found := cursor.nextToken file
    found.1 :: pulls file count found.2

/-- At the end of a text there is only the token for the end. -/
theorem nextToken_of_after_eq_nil (file : String) {cursor : Cursor} (hafter : cursor.after = []) :
    cursor.nextToken file = (Scan.atEnd file cursor, cursor) := by
  have hskip : cursor.skipTrivia = cursor := by
    rw [skipTrivia, hafter]
    rfl
  rw [nextToken, Scan.next]
  simp only [hskip, hafter]

/-- At the end of a text every further token is the one for the end. -/
theorem pulls_of_after_eq_nil (file : String) (count : Nat) {cursor : Cursor}
    (hafter : cursor.after = []) :
    pulls file count cursor = List.replicate count (Scan.atEnd file cursor) := by
  induction count with
  | zero => rfl
  | succ count ih => rw [pulls, nextToken_of_after_eq_nil file hafter, ih, List.replicate_succ]

end Cursor

namespace TokenStream

/-- The scans of a stream, and behind them the token for the end without a problem, a number of
times. -/
def repeated (stream : TokenStream) (count : Nat) : List Scan :=
  stream.scans ++ stream.final :: List.replicate count ⟨stream.final.token, []⟩

/-- The token for the end brings no problem when it is asked for again. -/
theorem flatMap_take_repeated (stream : TokenStream) (count more : Nat) :
    ((stream.repeated more).take count).flatMap (·.problems) =
      ((stream.scans ++ [stream.final]).take count).flatMap (·.problems) := by
  have hquiet : ∀ count, ((List.replicate more ⟨stream.final.token, []⟩).take count).flatMap
      (fun scan : Scan => scan.problems) = [] := by
    intro count
    rw [List.flatMap_eq_nil_iff]
    intro scan hscan
    rw [List.eq_of_mem_replicate (List.mem_of_mem_take hscan)]
  rw [repeated, List.append_cons, List.take_append, List.flatMap_append, hquiet, List.append_nil]

end TokenStream

/-- Asking for tokens one after the other gives those of the stream. -/
theorem Cursor.pulls_eq_take (file : String) {count more bound : Nat} {cursor : Cursor}
    (hmore : count ≤ more) (hbound : cursor.after.length < bound) :
    pulls file count cursor =
      ((TokenStream.startingAt file bound cursor).repeated more).take count := by
  induction count generalizing bound cursor with
  | zero => rfl
  | succ count ih =>
      cases bound with
      | zero => omega
      | succ bound =>
          have hfound := Scan.next_found file hbound
          have hnext : cursor.nextToken file = Scan.next file (bound + 1) cursor :=
            Scan.next_eq_next file (Nat.lt_succ_self _) hbound
          rw [pulls, hnext, TokenStream.startingAt]
          generalize Scan.next file (bound + 1) cursor = found at hfound ⊢
          cases hfound with
          | @ending gap reports hafter hfiller =>
              have hnil : (cursor.advance gap.length).after = [] := by
                rw [after_advance, hafter, List.drop_length]
              have hend := pulls_of_after_eq_nil file count hnil
              have hcount : count = min count more := by omega
              rw [hcount, ← List.take_replicate, ← hcount] at hend
              exact congrArg _ hend
          | @lexeme gap reports lexeme rest hafter hfiller hread =>
              have hkind : (lexeme.kind == .endOfInput) = false :=
                beq_eq_false_iff_ne.2 (Lexeme.kind_ne_endOfInput hread)
              have hsome := List.length_pos_iff.2 (Lexeme.text_ne_nil hread)
              have hfewer : (cursor.advance (gap.length + lexeme.text.length)).after.length <
                  bound := by
                rw [after_advance, List.length_drop]
                rw [hafter] at hbound ⊢
                simp only [List.length_append] at hbound ⊢
                omega
              simp only [Scan.token_behind, Scan.kind_ofLexeme, hkind]
              exact congrArg _ (ih (by omega) hfewer)

end Quill
