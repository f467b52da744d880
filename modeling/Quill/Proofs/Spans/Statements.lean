import Quill.Proofs.Spans.Expressions

/-!
# The spans of statements, and where statements are tried

A statement of a block or of a text is tried: it is read, or else recorded as a problem and given
up.  The readers here may leave a note each time this is done.  A note is left at a token behind the
one where the statement around it was tried, and a token is taken between two tries in a row.  So no
two of them begin at the same token, each of them records one problem of parsing at the most, and
these problems come in the order of the text.  The statements that are read are well spanned.
-/

namespace Quill

namespace Parse

/-- Tries a statement as `orRecover` does, and leaves a note with the number of tokens taken by
then. -/
def noting (stmt : Parse Stmt) : StmtReader := fun parser =>
  orRecover stmt (parser.record (.note parser.consumed))

/-- Reads a statement that is nested less deeply than the bound, where `attempt` tries the
statements of its blocks. -/
def stmtBy (attempt : Parse Stmt → StmtReader) (grammar : Grammar) : Nat → Parse Stmt
  | 0 => unexpected
  | bound + 1 => do
    match grammar.stmt (← currentKind) with
    | some form => stmtOf grammar (attempt (stmtBy attempt grammar bound)) form
    | none =>
      let value ← expr grammar .lowest
      return .expr value

/-- Statements are tried without notes. -/
theorem stmtBy_orRecover (grammar : Grammar) (bound : Nat) :
    stmtBy orRecover grammar bound = stmtWithin grammar bound := by
  induction bound with
  | zero => rfl
  | succ bound ih =>
      show stmtStep grammar (stmtBy orRecover grammar bound) =
        stmtStep grammar (stmtWithin grammar bound)
      rw [ih]

variable {file : String} {text : List Char} {least : Nat} {parser : Parser}

/-! ### Trying a statement -/

/-- The second reader does without notes what the first one does, at all states where at least
`least` tokens have been taken.  It gives well spanned statements. -/
def StmtReadersFollow (file : String) (text : List Char) (least : Nat) (sub other : StmtReader) :
    Prop :=
  ∀ next, next.Ordered file text → next.atEnd = false → least ≤ next.consumed →
    Parser.Leads file text least 0 next (sub next).2 ∧
      other next.plain = ((sub next).1, (sub next).2.plain) ∧
      ∀ stmt ∈ (sub next).1, stmt.Spanned file text

/-- A statement is tried, and what is read or recorded has its place behind the note. -/
theorem follows_noting {inner inner' : Parse Stmt} (hordered : parser.Ordered file text)
    (hmore : parser.atEnd = false)
    (hinner : Follows file text (parser.consumed + 1) inner inner'
      (parser.record (.note parser.consumed)) fun stmt _ => stmt.Spanned file text)
    (hplain : Alike inner' inner' parser.plain (Takes parser.plain)) :
    Parser.Leads file text parser.consumed 0 parser (noting inner parser).2 ∧
      orRecover inner' parser.plain = ((noting inner parser).1, (noting inner parser).2.plain) ∧
      ∀ stmt ∈ (noting inner parser).1, stmt.Spanned file text := by
  have hsound := hordered.sound_plain
  obtain ⟨-, hreaches, hfewer⟩ := alike_orRecover hsound hmore hplain
  have hsum := hreaches.consumed_add_remaining hsound
  have hlt : parser.consumed < (orRecover inner' parser.plain).2.consumed := by
    rw [Parser.consumed_plain, Parser.remaining_plain] at hsum
    rw [Parser.remaining_plain] at hfewer
    omega
  have hsame := hinner.same
  have hends := hinner.ends
  rw [Parser.plain_note] at hsame
  cases hrun : inner (parser.record (.note parser.consumed)) with
  | ok stmt next =>
      rw [hrun] at hsame hends
      have hnoting : noting inner parser = (some stmt, next) := by
        rw [noting, orRecover, hrun]
      have horRecover : orRecover inner' parser.plain = (some stmt, next.plain) := by
        rw [orRecover, hsame]
        rfl
      rw [horRecover] at hlt
      rw [hnoting, horRecover]
      refine ⟨hends.1.noted (Nat.zero_le _) hlt, rfl, ?_⟩
      intro other hother
      obtain rfl := Option.mem_some.1 hother
      exact hends.2
  | error diagnostic next =>
      rw [hrun] at hsame hends
      have hnoting : noting inner parser =
          (none, (next.record diagnostic).recover parser.consumed) := by
        rw [noting, orRecover, hrun]
        rfl
      obtain ⟨hleads, hphase⟩ := hends
      obtain ⟨hrecover, hwithout⟩ :=
        hleads.ordered.recover (parser.consumed + 1) parser.consumed
      have horRecover : orRecover inner' parser.plain =
          (none, ((next.record diagnostic).recover parser.consumed).plain) := by
        rw [orRecover, hsame, hwithout, Parser.plain_record _ hphase]
        rfl
      rw [horRecover] at hlt
      rw [hnoting, horRecover]
      exact ⟨(hleads.trans hrecover).noted (Nat.le_refl _) hlt, rfl, by simp⟩

/-! ### Blocks -/

section Blocks

variable {sub other : StmtReader} (hsub : StmtReadersFollow file text least sub other)

include hsub

/-- The statements of a block are tried one after the other. -/
theorem follows_body (hordered : parser.Ordered file text) (hleast : least ≤ parser.consumed)
    (bound : Nat) :
    Follows file text least (body sub bound) (body other bound) parser fun stmts _ =>
      ∀ stmt ∈ stmts, stmt.Spanned file text := by
  induction bound generalizing parser with
  | zero => exact .unexpected hordered
  | succ bound ih =>
      apply Follows.bind (.currentKind hordered)
      rintro kind _ - - - ⟨rfl, rfl⟩
      split
      · exact .pure hordered fun _ hstmt => nomatch hstmt
      · next hkind =>
          have hmore : parser.atEnd = false := by
            rw [Bool.or_eq_true, not_or] at hkind
            exact Bool.eq_false_iff.2 hkind.2
          obtain ⟨hleads, hsame, hstmts⟩ := hsub parser hordered hmore hleast
          have hfirst : Follows file text least (always sub) (always other) parser
              fun found _ => ∀ stmt ∈ found, stmt.Spanned file text := by
            refine ⟨?_, hleads, hstmts⟩
            rw [always, always, hsame]
            rfl
          apply Follows.bind hfirst
          intro first next hnext _ hconsumed hspanned
          apply Follows.bind (ih hnext (by omega))
          intro others last hlast _ _ hothers
          refine .pure hlast (List.forall_mem_append.2 ⟨?_, hothers⟩)
          exact fun stmt hstmt => hspanned stmt (Option.mem_toList.1 hstmt)

/-- A block lies between its brackets.  Its statements are tried behind the opening one. -/
theorem follows_block (hordered : parser.Ordered file text)
    (hleast : least ≤ parser.consumed + 1) :
    Follows file text least (block sub) (block other) parser fun block _ =>
      block.Spanned file text := by
  apply Follows.bind (.expect hordered)
  intro opening inside hinside _ _ hopening
  have hbehind := hopening.consumed_lt
  apply Follows.bind (.bounded (follows_body hsub hinside (by omega) _))
  intro stmts behind hbehind hle _ hstmts
  apply Follows.bind (.expect hbehind)
  intro closing last hlast _ _ hclosing
  exact .pure hlast ⟨(hopening.lies.spanning hclosing.lies hle).fits, hstmts⟩

end Blocks

/-! ### Statements of each form -/

theorem follows_parameters (hordered : parser.Ordered file text) (bound : Nat) :
    Follows file text least (parameters bound) (parameters bound) parser fun _ _ => True := by
  induction bound generalizing parser with
  | zero => exact .unexpected hordered
  | succ bound ih =>
      apply Follows.bind (.expect hordered)
      intro name named hnamed _ _ _
      apply Follows.bind (.expect hnamed)
      intro _ behind hbehind _ _ _
      apply Follows.bind (follows_annotation_self hbehind)
      intro type typed htyped _ _ _
      apply Follows.bind (.accept htyped)
      intro taken next hnext _ _ _
      split
      · apply Follows.bind (ih hnext)
        intro others last hlast _ _ _
        exact .pure hlast trivial
      · exact .pure hnext trivial

section Forms

variable {sub other : StmtReader} (hsub : StmtReadersFollow file text least sub other)

include hsub

/-- A function declaration lies from its first word to its return type. -/
theorem follows_function (hordered : parser.Ordered file text)
    (hleast : least ≤ parser.consumed + 1) :
    Follows file text least (function sub) (function other) parser fun stmt _ =>
      stmt.Spanned file text := by
  apply Follows.bind (.advance hordered)
  intro opening next hnext _ _ hopening
  have hbehind := hopening.consumed_lt
  apply Follows.bind (.expect hnext)
  intro name named hnamed hle _ _
  apply Follows.bind (.expect hnamed)
  intro _ inside hinside hle' _ _
  apply Follows.bind (.currentKind hinside)
  rintro kind _ - - - ⟨rfl, rfl⟩
  apply Follows.either fun _ _ => True
  · exact fun _ => .pure hinside trivial
  · exact fun _ => .bounded (follows_parameters hinside _)
  · intro params listed hlisted hle'' _ _
    apply Follows.bind (.expect hlisted)
    intro closing behind hbehind hclosed _ hclosing
    apply Follows.bind (.currentKind hbehind)
    rintro kind _ - - - ⟨rfl, rfl⟩
    -- The declaration ends with what closes the parameters, or with the annotation behind it.
    apply Follows.either fun found next => found.2.Lies file text listed.place next.place
    · exact fun _ => .pure hbehind hclosing.lies
    · exact fun _ => (follows_annotation_self hbehind).mono fun _ _ _ hfound =>
        hfound.mono hclosed (Nat.le_refl _)
    · intro type typed htyped _ _ htype
      have hspan := hopening.lies.spanning htype (by omega)
      apply Follows.bind (follows_block hsub htyped (by omega))
      intro block last hlast _ _ hblock
      apply Follows.bind (.sourceNumber hlast)
      intro source final hfinal _ _ _
      exact .pure hfinal (.of_span rfl (List.forall_mem_nil _) hspan.fits
        (List.forall_mem_singleton.2 hblock))

/-- An arm lies from its first word to its condition. -/
theorem follows_arm (grammar : Grammar) (hordered : parser.Ordered file text)
    (hleast : least ≤ parser.consumed + 1) :
    Follows file text least (arm grammar sub) (arm grammar other) parser fun arm _ =>
      arm.Spanned file text := by
  apply Follows.bind (.advance hordered)
  intro opening next hnext _ _ hopening
  apply Follows.bind (follows_expr grammar hnext .lowest)
  intro condition behind hbehind _ _ hcondition
  apply Follows.bind (follows_block hsub hbehind (by omega))
  intro block last hlast _ _ hblock
  exact .pure hlast ⟨hcondition.spanned,
    (hopening.lies.spanning hcondition.span (Nat.le_refl _)).fits, hblock⟩

theorem follows_otherArms (grammar : Grammar) (hordered : parser.Ordered file text)
    (hleast : least ≤ parser.consumed + 1) (bound : Nat) :
    Follows file text least (otherArms grammar sub bound) (otherArms grammar other bound) parser
      fun found _ => (∀ arm ∈ found.1, arm.Spanned file text) ∧
        ∀ block ∈ found.2, block.Spanned file text := by
  induction bound generalizing parser with
  | zero => exact .unexpected hordered
  | succ bound ih =>
      apply Follows.bind (.accept hordered)
      intro taken next hnext _ _ _
      split
      · apply Follows.bind (.currentKind hnext)
        rintro kind _ - - - ⟨rfl, rfl⟩
        split
        · apply Follows.bind (follows_arm hsub grammar hnext (by omega))
          intro first behind hbehind _ _ hfirst
          apply Follows.bind (ih hbehind (by omega))
          intro others last hlast _ _ hothers
          exact .pure hlast ⟨List.forall_mem_cons.2 ⟨hfirst, hothers.1⟩, hothers.2⟩
        · apply Follows.bind (follows_block hsub hnext (by omega))
          intro otherwise last hlast _ _ hblock
          refine .pure hlast ⟨by simp, ?_⟩
          intro block hmem
          rw [← Option.mem_some.1 hmem]
          exact hblock
      · exact .pure hnext ⟨by simp, by simp⟩

/-- A branch carries the spans of its arms. -/
theorem follows_branch (grammar : Grammar) (hordered : parser.Ordered file text)
    (hleast : least ≤ parser.consumed + 1) :
    Follows file text least (branch grammar sub) (branch grammar other) parser fun stmt _ =>
      stmt.Spanned file text := by
  apply Follows.bind (follows_arm hsub grammar hordered hleast)
  intro first next hnext _ _ hfirst
  apply Follows.bind (.bounded (follows_otherArms hsub grammar hnext (by omega) _))
  intro found last hlast _ _ hfound
  exact .pure hlast
    (Stmt.everywhere_branch.2 ⟨List.forall_mem_cons.2 ⟨hfirst, hfound.1⟩, hfound.2⟩)

/-- A counting loop lies from its first word to its upper bound. -/
theorem follows_range (grammar : Grammar) (hordered : parser.Ordered file text)
    (hleast : least ≤ parser.consumed + 1) :
    Follows file text least (range grammar sub) (range grammar other) parser fun stmt _ =>
      stmt.Spanned file text := by
  apply Follows.bind (.advance hordered)
  intro opening next hnext _ _ hopening
  apply Follows.bind (.expect hnext)
  intro counter named hnamed hle _ _
  apply Follows.bind (.expect hnamed)
  intro _ behind hbehind hle' _ _
  apply Follows.bind (follows_expr grammar hbehind .lowest)
  intro lower started hstarted hlong _ hlower
  apply Follows.bind (.expect hstarted)
  intro _ dotted hdotted hlong' _ _
  apply Follows.bind (follows_expr grammar hdotted .lowest)
  intro upper stopped hstopped _ _ hupper
  apply Follows.bind (follows_block hsub hstopped (by omega))
  intro block last hlast _ _ hblock
  have hspan := hopening.lies.spanning hupper.span (by omega)
  exact .pure hlast (.of_span rfl
    (List.forall_mem_cons.2 ⟨hlower.spanned, List.forall_mem_singleton.2 hupper.spanned⟩)
    hspan.fits (List.forall_mem_singleton.2 hblock))

/-- A statement that opens with a word or a bracket is well spanned. -/
theorem follows_stmtOf (grammar : Grammar) (hordered : parser.Ordered file text)
    (hleast : least ≤ parser.consumed + 1) (form : StmtForm) :
    Follows file text least (stmtOf grammar sub form) (stmtOf grammar other form) parser
      fun stmt _ => stmt.Spanned file text := by
  cases form with
  | function => exact follows_function hsub hordered hleast
  | ret =>
      apply Follows.bind (.advance hordered)
      intro opening next hnext _ _ hopening
      apply Follows.bind (follows_expr grammar hnext .lowest)
      intro value last hlast _ _ hvalue
      have hspan := hopening.lies.spanning hvalue.span (Nat.le_refl _)
      exact .pure hlast (.of_span rfl (List.forall_mem_singleton.2 hvalue.spanned) hspan.fits
        (List.forall_mem_nil _))
  | bind =>
      apply Follows.bind (.advance hordered)
      intro opening next hnext _ _ hopening
      apply Follows.bind (.expect hnext)
      intro name named hnamed hle _ _
      apply Follows.bind (.expect hnamed)
      intro _ behind hbehind hle' _ _
      apply Follows.bind (follows_expr grammar hbehind .lowest)
      intro value last hlast _ _ hvalue
      have hspan := hopening.lies.spanning hvalue.span (Nat.le_trans hle hle')
      exact .pure hlast (.of_span rfl (List.forall_mem_singleton.2 hvalue.spanned) hspan.fits
        (List.forall_mem_nil _))
  | branch => exact follows_branch hsub grammar hordered hleast
  | loop =>
      apply Follows.bind (follows_arm hsub grammar hordered hleast)
      intro only last hlast _ _ honly
      exact .pure hlast (.of_span rfl (List.forall_mem_singleton.2 honly.condition) honly.span
        (List.forall_mem_singleton.2 honly.body))
  | range => exact follows_range hsub grammar hordered hleast
  | block =>
      apply Follows.bind (follows_block hsub hordered hleast)
      intro inner last hlast _ _ hinner
      exact .pure hlast (.of_span rfl (List.forall_mem_nil _) hinner.span
        (List.forall_mem_singleton.2 hinner))

end Forms

/-! ### Whole statements and texts -/

section Whole

variable {grammar : Grammar} (hgrammar : grammar.StopsAtEnd)

include hgrammar

/-- A statement is well spanned, and the statements in it are tried behind its first token. -/
theorem follows_stmtBy (hordered : parser.Ordered file text) (hleast : least ≤ parser.consumed + 1)
    (bound : Nat) :
    Follows file text least (stmtBy noting grammar bound) (stmtBy orRecover grammar bound) parser
      fun stmt _ => stmt.Spanned file text := by
  induction bound generalizing parser least with
  | zero => exact .unexpected hordered
  | succ bound ih =>
      have hsub : StmtReadersFollow file text least (noting (stmtBy noting grammar bound))
          (orRecover (stmtBy orRecover grammar bound)) := by
        intro next hnext hmore hle
        have hinner := ih (hnext.record (.note next.consumed)) (Nat.le_refl (next.consumed + 1))
        have hplain := alike_stmtWithin_self hgrammar hnext.sound_plain bound
        rw [← stmtBy_orRecover] at hplain
        obtain ⟨hleads, hothers⟩ := follows_noting hnext hmore hinner hplain
        exact ⟨hleads.of_least hle, hothers⟩
      apply Follows.bind (.currentKind hordered)
      rintro kind _ - - - ⟨rfl, rfl⟩
      split
      · next form _ => exact follows_stmtOf hsub grammar hordered hleast form
      · apply Follows.bind (follows_expr grammar hordered .lowest)
        intro value last hlast _ _ hvalue
        exact .pure hlast (.of_span rfl (List.forall_mem_singleton.2 hvalue.spanned)
          hvalue.span.fits (List.forall_mem_nil _))

/-- A statement of a text is tried. -/
theorem follows_attempt :
    StmtReadersFollow file text 0 (noting (bounded (stmtBy noting grammar)))
      (stmtOrRecover grammar) := by
  intro next hnext hmore hleast
  have hinner := follows_stmtBy hgrammar (hnext.record (.note next.consumed))
    (Nat.le_refl (next.consumed + 1)) (next.remaining + 1)
  have hplain := alike_stmtWithin_self hgrammar hnext.sound_plain (next.plain.remaining + 1)
  rw [stmtBy_orRecover] at hinner
  obtain ⟨hleads, hothers⟩ := follows_noting hnext hmore hinner.bounded hplain.bounded
  exact ⟨hleads.of_least hleast, hothers⟩

end Whole

end Parse

namespace Parser

/-- Reads at most `bound` statements with `attempt`, stopping at the end of the text. -/
def statementsBy (attempt : Parse.StmtReader) : Nat → Parser → List Stmt × Parser
  | 0, parser => ([], parser)
  | bound + 1, parser =>
    if parser.atEnd then
      ([], parser)
    else
      let first := attempt parser
      let others := statementsBy attempt bound first.2
      (first.1.toList ++ others.1, others.2)

theorem statementsBy_stmtOrRecover (grammar : Grammar) (bound : Nat) (parser : Parser) :
    parser.statementsBy (Parse.stmtOrRecover grammar) bound = parser.statements grammar bound := by
  induction bound generalizing parser with
  | zero => rfl
  | succ bound ih =>
      rw [statementsBy, statements]
      simp only [ih]

variable {file : String} {text : List Char} {parser : Parser} {attempt other : Parse.StmtReader}

/-- The statements of a text are tried one after the other. -/
theorem follows_statements (hattempt : Parse.StmtReadersFollow file text 0 attempt other)
    (hordered : parser.Ordered file text) (bound : Nat) :
    let run := parser.statementsBy attempt bound
    Leads file text 0 0 parser run.2 ∧
      parser.plain.statementsBy other bound = (run.1, run.2.plain) ∧
      ∀ stmt ∈ run.1, stmt.Spanned file text := by
  induction bound generalizing parser with
  | zero => exact ⟨.refl hordered, rfl, by simp [statementsBy]⟩
  | succ bound ih =>
      cases hend : parser.atEnd with
      | true =>
          have hplain : parser.plain.atEnd = true := hend
          rw [statementsBy, statementsBy, if_pos hend, if_pos hplain]
          exact ⟨.refl hordered, rfl, by simp⟩
      | false =>
          have hplain : parser.plain.atEnd = false := hend
          obtain ⟨hfirst, hsame, hstmts⟩ := hattempt parser hordered hend (Nat.zero_le _)
          obtain ⟨hothers, hsame', hstmts'⟩ := ih hfirst.ordered
          rw [statementsBy, statementsBy, hend, hplain, hsame]
          refine ⟨hfirst.trans hothers, ?_, ?_⟩
          · show (_ ++ (Parser.statementsBy other bound _).1, (Parser.statementsBy other bound _).2)
              = _
            rw [hsame']
            rfl
          · refine List.forall_mem_append.2 ⟨?_, hstmts'⟩
            exact fun stmt hstmt => hstmts stmt (Option.mem_toList.1 hstmt)

/-- Reads a whole text, and notes at which tokens statements are tried. -/
def readNoting (file text : String) (source : Nat) : List Stmt × Parser :=
  let parser := ofText file text source
  parser.statementsBy (Parse.noting (Parse.bounded (Parse.stmtBy Parse.noting .standard)))
    (parser.remaining + 1)

/-- At the start of a text, the problems in view are those of scanning. -/
theorem scanned_ofText (file text : String) (source : Nat) :
    Scanned file text.toList (ofText file text source).recorded := by
  intro problem hproblem
  obtain ⟨scan, hscan, hmem⟩ := openingProblems_mem_scans hproblem
  exact (ordered_ofText file text source).problems scan hscan problem hmem

/-- Reading with notes is in order, and it is plain reading but for the notes. -/
theorem readNoting_follows (file text : String) (source : Nat) :
    let first := ofText file text source
    let run := readNoting file text source
    Leads file text.toList 0 0 first run.2 ∧
      first.statements .standard (first.remaining + 1) = (run.1, run.2.plain) ∧
      ∀ stmt ∈ run.1, stmt.Spanned file text.toList := by
  intro first run
  have hplain : first.plain = first := by
    rw [plain, (scanned_ofText file text source).filter_plain]
  obtain ⟨hleads, hsame, hstmts⟩ := follows_statements
    (Parse.follows_attempt Grammar.standard_stopsAtEnd) (ordered_ofText file text source)
    (first.remaining + 1)
  refine ⟨hleads, ?_, hstmts⟩
  rw [← statementsBy_stmtOrRecover]
  show Parser.statementsBy _ _ first = _
  rw [← hplain]
  exact hsame

end Parser

/-- What is read of a text is what is read with notes, but for the notes. -/
theorem parse_eq_readNoting (file text : String) (source : Nat) :
    let run := Parser.readNoting file text source
    parse file text source = ⟨run.1, run.2.recorded.filter (!·.isNote)⟩ := by
  obtain ⟨-, hsame, -⟩ := Parser.readNoting_follows file text source
  rw [parse, hsame]
  rfl

end Quill
