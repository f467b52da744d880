import Quill.Proofs.Parsing.Statements
import Quill.Proofs.Scanning.Coverage
import Quill.Proofs.Scanning.Pulls

/-!
# Parsing and scanning agree

The parser asks for one token after the other and looks two tokens ahead.  At every state of its
course it stands where it would stand in the list of all tokens of the text, and it has recorded the
problems of just those tokens that came into view.  It takes every token once, stops at the end, and
no bound on its recursions is ever used up.
-/

namespace Quill

namespace Parser

variable {stream : TokenStream} {parser state : Parser}

/-- The problems in view at the start are those of the first two tokens. -/
theorem openingProblems_eq (scans : List Scan) (final : Scan) :
    openingProblems scans final = ((scans ++ [final]).take 2).flatMap (·.problems) := by
  rw [openingProblems.eq_def]
  split <;> simp

/-- The problems that come into view are those of the third token. -/
theorem nextProblems_eq (parser : Parser) :
    parser.nextProblems =
      (((parser.ahead ++ [parser.final]).drop 2).take 1).flatMap (·.problems) := by
  rw [nextProblems]
  split
  · next hahead => simp [hahead]
  · next hahead => simp [hahead]
  · next hthree htwo =>
      cases hahead : parser.ahead with
      | nil => rfl
      | cons first others =>
          cases others with
          | nil => rfl
          | cons second others =>
              cases others with
              | nil => exact absurd hahead (htwo first second)
              | cons third others => exact absurd hahead (hthree first second third others)

/-- The parser stands where it has taken the first tokens of a stream, and has recorded the problems
of those that came into view. -/
structure Along (stream : TokenStream) (state : Parser) : Prop where
  final : state.final = stream.final
  taken : state.consumed ≤ stream.scans.length
  ahead : state.ahead = stream.scans.drop state.consumed
  problems : state.recorded.filter (·.phase == .lexing) =
    ((stream.scans ++ [stream.final]).take (state.consumed + 2)).flatMap (·.problems)

namespace Along

/-- Problems of scanning are all of the phase of lexing. -/
theorem filter_lexing {scans : List Scan}
    (hphase : ∀ scan ∈ scans, ∀ problem ∈ scan.problems, problem.phase = .lexing) :
    (scans.flatMap (·.problems)).filter (·.phase == .lexing) = scans.flatMap (·.problems) := by
  rw [List.filter_eq_self]
  intro problem hproblem
  obtain ⟨scan, hscan, hmem⟩ := List.mem_flatMap.1 hproblem
  rw [hphase scan hscan problem hmem]
  rfl

/-- The start of a stream. -/
theorem start (hlexical : stream.Lexical) (source : Nat) :
    Along stream (Parser.start stream source) where
  final := rfl
  taken := Nat.zero_le _
  ahead := rfl
  problems := by
    change (openingProblems stream.scans stream.final).filter _ = _
    rw [openingProblems_eq]
    exact filter_lexing fun scan hscan => hlexical scan (List.mem_of_mem_take hscan)

/-- Taking a token goes along. -/
theorem advance (hlexical : stream.Lexical) (h : Along stream state)
    (hmore : 0 < state.remaining) : Along stream state.advance := by
  have hremaining : state.remaining = stream.scans.length - state.consumed := by
    rw [remaining, h.ahead, List.length_drop]
  have hview : (state.ahead ++ [state.final]).drop 2 =
      (stream.scans ++ [stream.final]).drop (state.consumed + 2) := by
    rw [h.ahead, h.final, ← List.drop_append_of_le_length h.taken, List.drop_drop]
  constructor
  · exact h.final
  · change state.consumed + 1 ≤ _
    omega
  · change state.ahead.tail = stream.scans.drop (state.consumed + 1)
    rw [h.ahead, List.tail_drop]
  · change (state.recorded ++ state.nextProblems).filter _ =
      ((stream.scans ++ [stream.final]).take (state.consumed + 2 + 1)).flatMap _
    have hnext : ((((stream.scans ++ [stream.final]).drop (state.consumed + 2)).take 1).flatMap
        (·.problems)).filter (·.phase == .lexing) = _ :=
      filter_lexing fun scan hscan =>
        hlexical scan (List.mem_of_mem_drop (List.mem_of_mem_take hscan))
    have hsplit : (stream.scans ++ [stream.final]).take (state.consumed + 2 + 1) = _ ++ _ :=
      List.take_add
    rw [List.filter_append, h.problems, nextProblems_eq, hview, hnext, hsplit,
      List.flatMap_append]

/-- Recording a problem of parsing goes along. -/
theorem record (h : Along stream state) {diagnostic : Diagnostic}
    (hphase : diagnostic.phase = .parsing) : Along stream (state.record diagnostic) where
  final := h.final
  taken := h.taken
  ahead := h.ahead
  problems := by
    have hother : [diagnostic].filter (·.phase == .lexing) = [] := by
      rw [List.filter_cons, hphase]
      rfl
    change (state.recorded ++ [diagnostic]).filter _ = _
    rw [List.filter_append, hother, List.append_nil]
    exact h.problems

/-- The whole course goes along. -/
theorem of_reaches (hlexical : stream.Lexical) (hsound : parser.Sound) (h : Along stream parser)
    (hreaches : parser.Reaches state) : Along stream state := by
  induction hreaches with
  | refl => exact h
  | take hbefore hmore ih =>
      exact ih.advance hlexical ((hbefore.sound hsound).remaining_pos hmore)
  | note _ hnote ih => exact ih.record hnote

/-- At the end all problems of scanning have been recorded. -/
theorem filter_recorded_of_atEnd (h : Along stream state) (hsound : state.Sound)
    (hend : state.atEnd = true) :
    state.recorded.filter (·.phase == .lexing) = stream.diagnostics := by
  have hall : stream.scans.length ≤ state.consumed := by
    have hnone := hsound.atEnd_iff.1 hend
    rw [Parser.remaining, h.ahead, List.length_drop] at hnone
    omega
  rw [h.problems, List.take_of_length_le (by simp; omega), List.flatMap_append,
    List.flatMap_singleton]
  rfl

end Along

/-! ### What the parser sees -/

/-- A state of the parser agrees with the tokens of the whole text, and with what a reader has got
who asked for two tokens more than were taken: the two tokens in view, and all problems of
scanning so far. -/
structure Agrees (file text : String) (state : Parser) : Prop where
  current : (TokenStream.ofText file text).tokens[
    min state.consumed ((TokenStream.ofText file text).tokens.length - 1)]? = some state.current
  peek : (TokenStream.ofText file text).tokens[
    min (state.consumed + 1) ((TokenStream.ofText file text).tokens.length - 1)]? = some state.peek
  inView : (((Cursor.start text.toList).pulls file (state.consumed + 2)).drop state.consumed).map
    (·.token) = [state.current, state.peek]
  problems : state.recorded.filter (·.phase == .lexing) =
    ((Cursor.start text.toList).pulls file (state.consumed + 2)).flatMap (·.problems)

/-- The two tokens in view, in the list of all tokens. -/
theorem Along.getElem?_tokens (h : Along stream state) :
    stream.tokens[min state.consumed (stream.tokens.length - 1)]? = some state.current ∧
      stream.tokens[min (state.consumed + 1) (stream.tokens.length - 1)]? = some state.peek := by
  have htaken := h.taken
  have hlength : stream.tokens.length - 1 = stream.scans.length := by
    simp [TokenStream.tokens]
  have htokens : ∀ count, stream.tokens[state.consumed + count]? =
      ((state.ahead ++ [state.final]).map (·.token))[count]? := by
    intro count
    rw [h.ahead, h.final, ← List.drop_append_of_le_length h.taken, List.map_drop,
      List.getElem?_drop, TokenStream.tokens, List.map_append, List.map_singleton]
  have hremaining : state.ahead.length = stream.scans.length - state.consumed := by
    rw [h.ahead, List.length_drop]
  have hfirst := htokens 0
  have hsecond := htokens 1
  rw [hlength, Nat.min_eq_left htaken, Parser.current, Parser.peek]
  cases hahead : state.ahead with
  | nil =>
      -- At the end both tokens in view are the one for the end.
      rw [hahead, List.length_nil] at hremaining
      rw [hahead] at hfirst
      have hend : min (state.consumed + 1) stream.scans.length = state.consumed := by omega
      rw [hend]
      exact ⟨hfirst, hfirst⟩
  | cons first others =>
      rw [hahead, List.length_cons] at hremaining
      rw [hahead] at hfirst hsecond
      have hinside : min (state.consumed + 1) stream.scans.length = state.consumed + 1 := by omega
      rw [hinside]
      cases others with
      | nil => exact ⟨hfirst, hsecond⟩
      | cons second others => exact ⟨hfirst, hsecond⟩

/-- The tokens in view and the problems so far are those that were asked for. -/
theorem Along.agrees {file text : String} (h : Along (.ofText file text) state) :
    state.Agrees file text := by
  obtain ⟨hcurrent, hpeek⟩ := h.getElem?_tokens
  have hpulls : (Cursor.start text.toList).pulls file (state.consumed + 2) =
      ((TokenStream.ofText file text).repeated (state.consumed + 2)).take (state.consumed + 2) :=
    Cursor.pulls_eq_take file (Nat.le_refl _) (Nat.lt_succ_self _)
  refine ⟨hcurrent, hpeek, ?_, ?_⟩
  · rw [hpulls, List.drop_take, TokenStream.repeated, List.drop_append_of_le_length h.taken,
      ← h.ahead, ← h.final, Nat.add_sub_cancel_left, Parser.current, Parser.peek]
    cases state.ahead with
    | nil => rfl
    | cons first others =>
        cases others with
        | nil => rfl
        | cons second others => rfl
  · rw [hpulls, h.problems, TokenStream.flatMap_take_repeated]

/-! ### The bounds of the parser -/

open Parse

/-- No recursion of the parser comes to the end of its bound: if it is cut off after any number of
steps above the number of tokens left, it gives the same, whatever stands where it is cut off. -/
structure Unhindered (grammar : Grammar) (state : Parser) : Prop where
  annotation : ∀ last bound, state.remaining < bound →
    (annotationStep^[bound] last) state = annotation state
  elements : ∀ last bound, state.remaining < bound →
    ((elementsStep (expr grammar))^[bound] last) state =
      bounded (elements (expr grammar)) state
  arguments : ∀ last bound, state.remaining < bound →
    ((argumentsStep (expr grammar))^[bound] last) state =
      bounded (arguments (expr grammar)) state
  tails : ∀ level left last bound, state.remaining < bound →
    ((tailsStep grammar (expr grammar) level)^[bound] last) left state =
      bounded (fun steps => tails grammar (expr grammar) level steps left) state
  expr : ∀ level last bound, state.remaining < bound →
    ((exprStep grammar)^[bound] last) level state = expr grammar level state
  parameters : ∀ last bound, state.remaining < bound →
    (parametersStep^[bound] last) state = bounded parameters state
  body : ∀ last bound, state.remaining < bound →
    ((bodyStep (stmtOrRecover grammar))^[bound] last) state =
      bounded (body (stmtOrRecover grammar)) state
  otherArms : ∀ last bound, state.remaining < bound →
    ((otherArmsStep grammar (stmtOrRecover grammar))^[bound] last) state =
      bounded (otherArms grammar (stmtOrRecover grammar)) state
  stmt : ∀ last bound, state.remaining < bound →
    ((stmtStep grammar)^[bound] last) state = stmt grammar state
  statements : ∀ last bound, state.remaining < bound →
    ((statementsStep grammar)^[bound] last) state =
      state.statements grammar (state.remaining + 1)

/-- At a sound state no bound is used up. -/
theorem Sound.unhindered {grammar : Grammar} (hgrammar : grammar.StopsAtEnd)
    (hsound : state.Sound) : state.Unhindered grammar := by
  have hsub : ReadersAlike (state.remaining + 1) (expr grammar) (expr grammar) :=
    fun level next hnext _ => alike_expr hgrammar hnext level
  have hstmt : StmtReadersAlike (state.remaining + 1) (stmtOrRecover grammar)
      (stmtOrRecover grammar) := fun next hnext _ hmore =>
    alike_orRecover hnext hmore (.bounded (alike_stmtWithin_self hgrammar hnext _))
  have hless := Nat.lt_succ_self state.remaining
  constructor
  · intro last bound hbound
    exact (alike_annotationWithin (unrolls_iterate _ last) (fun _ => rfl) hsound hbound hless).same
  · intro last bound hbound
    exact (alike_elements hsub (unrolls_iterate _ last) (fun _ => rfl) hsound hless hbound
      hless).same
  · intro last bound hbound
    exact (alike_arguments hsub (unrolls_iterate _ last) (fun _ => rfl) hsound hless hbound
      hless).same
  · intro level left last bound hbound
    exact (alike_tails hgrammar hsub level (unrolls_iterate _ last) (fun _ => rfl) hsound hless
      hbound hless left).same
  · intro level last bound hbound
    exact (alike_exprWithin hgrammar (unrolls_iterate _ last) (fun _ => rfl) hsound hbound hless
      level).same
  · intro last bound hbound
    exact (alike_parameters (unrolls_iterate _ last) (fun _ => rfl) hsound hbound hless).same
  · intro last bound hbound
    exact (alike_body hstmt (unrolls_iterate _ last) (fun _ => rfl) hsound hless hbound hless).same
  · intro last bound hbound
    exact (alike_otherArms hgrammar hstmt (unrolls_iterate _ last) (fun _ => rfl) hsound hless
      hbound hless).same
  · intro last bound hbound
    exact (alike_stmtWithin hgrammar (unrolls_iterate _ last) (fun _ => rfl) hsound hbound
      hless).same
  · intro last bound hbound
    exact (alike_statements hgrammar (unrolls_iterate _ last) (fun _ => rfl) hsound hbound hless).1

/-- The readers go along the course of the parser.  An annotation or an expression that was read
took a token, and so did a statement, whether it was read or given up. -/
structure Steady (grammar : Grammar) (state : Parser) : Prop where
  annotation : EndsWell state (Takes state) <| annotation state
  expr : ∀ level, EndsWell state (Takes state) (expr grammar level state)
  stmt : ∀ bound, EndsWell state (Takes state) (stmtWithin grammar bound state)
  orRecover : state.atEnd = false → ∀ bound,
    state.Reaches (orRecover (stmtWithin grammar bound) state).2 ∧
      state.consumed < (orRecover (stmtWithin grammar bound) state).2.consumed

/-- At a sound state the readers go along the course of the parser. -/
theorem Sound.steady {grammar : Grammar} (hgrammar : grammar.StopsAtEnd) (hsound : state.Sound) :
    state.Steady grammar := by
  constructor
  · exact (alike_annotation_self hsound).ends
  · exact fun level => (alike_expr hgrammar hsound level).ends
  · exact fun bound => (alike_stmtWithin_self hgrammar hsound bound).ends
  · intro hmore bound
    obtain ⟨-, hreaches, hfewer⟩ :=
      alike_orRecover hsound hmore (alike_stmtWithin_self hgrammar hsound bound)
    have hsum := hreaches.consumed_add_remaining hsound
    exact ⟨hreaches, by omega⟩

/-- The start of a text is sound. -/
theorem sound_ofText (file text : String) (source : Nat) : (ofText file text source).Sound where
  ends := (TokenStream.ofText_covers file text).ends.1
  others := fun scan hscan => ((TokenStream.ofText_covers file text).placed scan hscan).kind

end Parser

/-- A text that is parsed without problems is scanned without problems. -/
theorem diagnostics_ofText_of_parse {file text : String} {source : Nat}
    (h : (parse file text source).diagnostics = []) :
    (TokenStream.ofText file text).diagnostics = [] := by
  have hunrolls : Parse.Unrolls (Parser.statementsStep .standard) (Parser.statements .standard) :=
    fun _ => rfl
  have hlexical := (TokenStream.ofText_covers file text).lexical
  have hsound := Parser.sound_ofText file text source
  obtain ⟨-, hreaches, hend⟩ := Parser.alike_statements Grammar.standard_stopsAtEnd hunrolls
    hunrolls hsound (Nat.lt_succ_self _) (Nat.lt_succ_self _)
  have hlast := Parser.Along.of_reaches hlexical hsound (.start hlexical source) hreaches
  have hproblems := hlast.filter_recorded_of_atEnd (hreaches.sound hsound) hend
  change (parse file text source).diagnostics.filter _ = _ at hproblems
  rw [← hproblems, h]
  rfl

/-- Parsing agrees with the tokens of the text, for every text.  At every state that the parser
reaches, the tokens in view are those at its place in the list of all tokens, the readers take
tokens only while there are some, and no recursion comes to the end of its bound.  Parsing stops at
the end, where every token has been taken once, and the problems of lexing that it records are
those that scanning finds. -/
theorem parse_agrees (file text : String) (source : Nat) :
    let stream := TokenStream.ofText file text
    let first := Parser.ofText file text source
    let last := (first.statements .standard (first.remaining + 1)).2
    (∀ state, first.Reaches state →
      state.Agrees file text ∧ state.Steady .standard ∧ state.Unhindered .standard) ∧
    first.Reaches last ∧ last.atEnd = true ∧ last.consumed + 1 = stream.tokens.length ∧
    (parse file text source).diagnostics = last.recorded ∧
    (parse file text source).diagnostics.filter (·.phase == .lexing) = stream.diagnostics := by
  intro stream first last
  have hsound : first.Sound := Parser.sound_ofText file text source
  have hlexical : stream.Lexical := (TokenStream.ofText_covers file text).lexical
  have halong : ∀ state, first.Reaches state → state.Along stream := fun state hreaches =>
    .of_reaches hlexical hsound (.start hlexical source) hreaches
  have hgrammar := Grammar.standard_stopsAtEnd
  have hunrolls : Parse.Unrolls (Parser.statementsStep .standard) (Parser.statements .standard) :=
    fun _ => rfl
  obtain ⟨hreaches, hend⟩ : first.Reaches last ∧ last.atEnd = true :=
    (Parser.alike_statements hgrammar hunrolls hunrolls hsound (Nat.lt_succ_self _)
      (Nat.lt_succ_self _)).2
  have hlast : last.Along stream := halong last hreaches
  have hconsumed : last.consumed = stream.scans.length := by
    have hnone := (hreaches.sound hsound).atEnd_iff.1 hend
    have hsum := hreaches.consumed_add_remaining hsound
    have hzero : first.consumed = 0 := rfl
    have hall : first.remaining = stream.scans.length := rfl
    omega
  have hrecorded : (parse file text source).diagnostics = last.recorded := by
    rw [parse]
  refine ⟨?_, hreaches, hend, ?_, hrecorded, ?_⟩
  · intro state hstate
    have hstill := hstate.sound hsound
    exact ⟨(halong state hstate).agrees, hstill.steady hgrammar, hstill.unhindered hgrammar⟩
  · rw [hconsumed, TokenStream.tokens]
    simp
  · rw [hrecorded, hlast.problems, hconsumed, List.take_of_length_le (by simp), List.flatMap_append,
      List.flatMap_singleton]
    rfl

end Quill
