import Quill.Parser.Stmt

/-!
# The course of a parser

A parser changes its state in two ways: it takes the token in front, or it records a problem.
`Reaches` is the closure of these steps, where a token is taken only while there is one and every
problem that is recorded is one of parsing.  Along such a course each token is taken once, so the
tokens taken and the tokens left always add up to the same number.
-/

namespace Quill

namespace Parser

variable {parser next last : Parser}

/-- The final token, and no other one, stands for the end of the text. -/
structure Sound (parser : Parser) : Prop where
  ends : parser.final.token.kind = .endOfInput
  others : ∀ scan ∈ parser.ahead, scan.token.kind ≠ .endOfInput

/-- A later state on the course of a parser. -/
inductive Reaches (parser : Parser) : Parser → Prop
  | refl : Reaches parser parser
  | take {next : Parser} (before : Reaches parser next) (more : next.atEnd = false) :
    Reaches parser next.advance
  | note {next : Parser} {diagnostic : Diagnostic} (before : Reaches parser next)
    (phase : diagnostic.phase = .parsing) : Reaches parser (next.record diagnostic)

@[simp] theorem remaining_advance (parser : Parser) :
    parser.advance.remaining = parser.remaining - 1 := by
  rw [remaining, advance, List.length_tail, remaining]

@[simp] theorem consumed_advance (parser : Parser) :
    parser.advance.consumed = parser.consumed + 1 := rfl

/-- A parser that stands in front of a token of another kind is not at the end. -/
theorem atEnd_of_kind {kind : TokenKind} (hkind : parser.current.kind = kind)
    (hother : kind ≠ .endOfInput) : parser.atEnd = false := by
  rw [atEnd, hkind]
  exact beq_eq_false_iff_ne.2 hother

namespace Sound

/-- The end is reached when no token is left. -/
theorem atEnd_iff (h : parser.Sound) : parser.atEnd = true ↔ parser.remaining = 0 := by
  rw [atEnd, beq_iff_eq, current, remaining]
  cases hahead : parser.ahead with
  | nil => simp [h.ends]
  | cons scan others =>
      have hkind := h.others scan (by simp [hahead])
      simp [hkind]

/-- Before the end there is a token left. -/
theorem remaining_pos (h : parser.Sound) (hmore : parser.atEnd = false) : 0 < parser.remaining := by
  rcases Nat.eq_zero_or_pos parser.remaining with hzero | hpos
  · rw [h.atEnd_iff.2 hzero] at hmore
    cases hmore
  · exact hpos

/-- A parser with tokens left is not at the end. -/
theorem atEnd_of_remaining_pos (h : parser.Sound) (hpos : 0 < parser.remaining) :
    parser.atEnd = false := by
  cases hend : parser.atEnd with
  | false => rfl
  | true =>
      have hzero := h.atEnd_iff.1 hend
      omega

end Sound

namespace Reaches

/-- A course that goes on with another one. -/
theorem trans (hfirst : parser.Reaches next) (hsecond : next.Reaches last) :
    parser.Reaches last := by
  induction hsecond with
  | refl => exact hfirst
  | take _ hmore ih => exact .take ih hmore
  | note _ hphase ih => exact .note ih hphase

/-- On its course a parser keeps to the same final token. -/
theorem sound (h : parser.Reaches next) (hsound : parser.Sound) : next.Sound := by
  induction h with
  | refl => exact hsound
  | take _ _ ih => exact ⟨ih.ends, fun scan hscan => ih.others scan (List.mem_of_mem_tail hscan)⟩
  | note _ _ ih => exact ⟨ih.ends, ih.others⟩

/-- Each token is taken once: those taken and those left add up to the same number. -/
theorem consumed_add_remaining (h : parser.Reaches next) (hsound : parser.Sound) :
    next.consumed + next.remaining = parser.consumed + parser.remaining := by
  induction h with
  | refl => rfl
  | take hbefore hmore ih =>
      have hpos := (hbefore.sound hsound).remaining_pos hmore
      rw [consumed_advance, remaining_advance]
      omega
  | note _ _ ih => exact ih

/-- The number of tokens taken never falls. -/
theorem consumed_le (h : parser.Reaches next) : parser.consumed ≤ next.consumed := by
  induction h with
  | refl => exact Nat.le_refl _
  | take _ _ ih =>
      rw [consumed_advance]
      omega
  | note _ _ ih => exact ih

/-- The number of tokens left never grows. -/
theorem remaining_le (h : parser.Reaches next) : next.remaining ≤ parser.remaining := by
  induction h with
  | refl => exact Nat.le_refl _
  | take _ _ ih =>
      rw [remaining_advance]
      omega
  | note _ _ ih => exact ih

end Reaches

/-! ### Recovery -/

/-- The rest of a line lies within the tokens that are left. -/
theorem restOfLine_le (parser : Parser) : parser.restOfLine ≤ parser.remaining := by
  have hlength := congrArg List.length
    (List.takeWhile_append_dropWhile (p := fun scan : Scan => !scan.token.startsLine)
      (l := parser.ahead))
  rw [List.length_append] at hlength
  rw [restOfLine, remaining]
  omega

/-- As many tokens as are left can be skipped. -/
theorem reaches_skip {count : Nat} (h : parser.Sound) (hcount : count ≤ parser.remaining) :
    parser.Reaches (parser.skip count) := by
  induction count generalizing parser with
  | zero => exact .refl
  | succ count ih =>
      have hmore := h.atEnd_of_remaining_pos (by omega)
      have hfirst : parser.Reaches parser.advance := .take .refl hmore
      have hothers : parser.advance.Reaches (parser.advance.skip count) := by
        apply ih (hfirst.sound h)
        rw [remaining_advance]
        omega
      exact hfirst.trans hothers

/-- Giving up a statement takes only tokens that are there. -/
theorem reaches_recover (h : parser.Sound) (before : Nat) :
    parser.Reaches (parser.recover before) := by
  rw [recover]
  split
  · next hmoves =>
      rw [Bool.and_eq_true, Bool.not_eq_true'] at hmoves
      have hfirst : parser.Reaches parser.advance := .take .refl hmoves.2
      exact hfirst.trans (reaches_skip (hfirst.sound h) (restOfLine_le _))
  · exact reaches_skip h (restOfLine_le _)

/-- Giving up a statement takes a token if none was taken before. -/
theorem consumed_lt_recover {before : Nat} (h : parser.Sound) (hbefore : before ≤ parser.consumed)
    (hmore : parser.consumed = before → parser.atEnd = false) :
    before < (parser.recover before).consumed := by
  rcases Nat.lt_or_eq_of_le hbefore with hlt | heq
  · exact Nat.lt_of_lt_of_le hlt (reaches_recover h before).consumed_le
  · have hmoves : (parser.consumed == before && !parser.atEnd) = true := by
      rw [hmore heq.symm, heq]
      simp
    have hfirst : parser.Reaches parser.advance := .take .refl (hmore heq.symm)
    have hskip := (reaches_skip (hfirst.sound h) (restOfLine_le _)).consumed_le
    rw [consumed_advance] at hskip
    rw [recover, if_pos hmoves]
    omega

end Parser

end Quill
