import Quill.Proofs.Tandem.Rules
import Quill.Proofs.Tandem.Streams
import Quill.Proofs.TypeText

/-!
# Annotations are read exactly

An annotation is read if, and only if, the next tokens are some opening brackets, the name of a
simple type and as many closing brackets.  Reading takes these tokens and no others; the type that
is read is shown by the text of the tokens, and its span reaches from the first of them to the last.

`TypeAhead` says what is in front of the parser by the recursion of the reader, one pair of brackets
after the other, and `annotation_eq_ok_iff` says that the reader does just this.  That the brackets
pair up in a row of tokens is a second step, which knows nothing of the reader.
-/

namespace Quill

namespace Parser

/-- The next tokens, as many as are asked for.  Behind all others the token for the end comes again
and again. -/
def upcoming : Nat → Parser → List Token
  | 0, _ => []
  | count + 1, parser => parser.current :: upcoming count parser.advance

variable {parser : Parser}

theorem advance_skip (count : Nat) (parser : Parser) :
    (parser.skip count).advance = parser.skip (count + 1) := by
  induction count generalizing parser with
  | zero => rfl
  | succ count ih => exact ih parser.advance

theorem upcoming_concat (count : Nat) (parser : Parser) :
    parser.upcoming (count + 1) = parser.upcoming count ++ [(parser.skip count).current] := by
  induction count generalizing parser with
  | zero => rfl
  | succ count ih =>
      rw [upcoming, ih parser.advance]
      rfl

@[simp] theorem length_upcoming (count : Nat) (parser : Parser) :
    (parser.upcoming count).length = count := by
  induction count generalizing parser with
  | zero => rfl
  | succ count ih => rw [upcoming, List.length_cons, ih]

/-- An annotation of the type stands in front of the parser, with a number of brackets on both sides
of the name of a simple type. -/
inductive TypeAhead : Nat → Ty → Parser → Prop
  | simple {type : Ty} {parser : Parser} (kind : parser.current.kind = .identifier)
    (name : Ty.ofName? parser.current.value = some type) : parser.TypeAhead 0 type
  | array {depth : Nat} {element : Ty} {parser : Parser}
    (opening : parser.current.kind = .openBracket) (inner : parser.advance.TypeAhead depth element)
    (closing : (parser.skip (2 * depth + 2)).current.kind = .closeBracket) :
    parser.TypeAhead (depth + 1) (.array element)

/-- There are no more opening brackets than tokens left.  At the end the same token comes again and
again, and it cannot be both a bracket and a name. -/
theorem TypeAhead.depth_le {depth : Nat} {type : Ty} (h : parser.TypeAhead depth type) :
    depth ≤ parser.remaining := by
  induction h with
  | simple => exact Nat.zero_le _
  | @array depth element parser hopening hinner _ ih =>
      rw [remaining_advance] at ih
      rcases Nat.eq_zero_or_pos parser.remaining with hend | hmore
      · obtain rfl : depth = 0 := by omega
        have hsame : parser.advance.current = parser.current := by
          have hahead : parser.ahead = [] := List.length_eq_zero_iff.1 hend
          simp only [current, advance, hahead, List.tail_nil]
        cases hinner with
        | simple hkind _ =>
            rw [hsame, hopening] at hkind
            cases hkind
      · omega

end Parser

/-! ### The reader -/

namespace Parse

variable {α β : Type} {parser after : Parser} {type : Ty} {span : Span}

theorem bind_eq_ok_iff {first : Parse α} {second : α → Parse β} {result : β} :
    (first >>= second) parser = .ok result after ↔
      ∃ value next, first parser = .ok value next ∧ second value next = .ok result after := by
  change EStateM.bind first second parser = _ ↔ _
  rw [EStateM.bind]
  cases first parser with
  | ok value next =>
      constructor
      · exact fun hread => ⟨value, next, rfl, hread⟩
      · rintro ⟨_, _, ⟨⟩, hread⟩
        exact hread
  | error diagnostic next => simp

theorem expect_eq_ok_iff {kind : TokenKind} {token : Token} :
    expect kind parser = .ok token after ↔
      parser.current.kind = kind ∧ token = parser.current ∧ after = parser.advance := by
  rw [expect]
  by_cases hkind : parser.current.kind = kind
  · simp [hkind, advance, eq_comm]
  · simp [hkind, unexpected]

theorem typeName_eq_ok_iff :
    typeName parser = .ok (type, span) after ↔
      parser.current.kind = .identifier ∧ Ty.ofName? parser.current.value = some type ∧
        span = parser.current.span ∧ after = parser.advance := by
  rw [typeName, bind_eq_ok_iff]
  simp only [expect_eq_ok_iff]
  constructor
  · rintro ⟨token, next, ⟨hkind, rfl, rfl⟩, hread⟩
    cases hname : Ty.ofName? parser.current.value with
    | none =>
        rw [hname] at hread
        cases hread
    | some found =>
        rw [hname] at hread
        cases hread
        exact ⟨hkind, rfl, rfl, rfl⟩
  · rintro ⟨hkind, hname, rfl, rfl⟩
    refine ⟨parser.current, parser.advance, ⟨hkind, rfl, rfl⟩, ?_⟩
    rw [hname]
    rfl

/-- One pair of brackets. -/
theorem annotationWithin_succ_eq_ok_iff {bound : Nat}
    (hopening : parser.current.kind = .openBracket) :
    annotationWithin (bound + 1) parser = .ok (type, span) after ↔
      ∃ element inner next, annotationWithin bound parser.advance = .ok (element, inner) next ∧
        next.current.kind = .closeBracket ∧ type = .array element ∧
        span = parser.current.span.spanning next.current.span ∧ after = next.advance := by
  rw [annotationWithin, bind_eq_ok_iff]
  constructor
  · rintro ⟨kind, _, ⟨⟩, hread⟩
    rw [if_pos (beq_iff_eq.2 hopening), bind_eq_ok_iff] at hread
    obtain ⟨opening, _, ⟨⟩, hread⟩ := hread
    obtain ⟨⟨element, inner⟩, next, hinner, hread⟩ := bind_eq_ok_iff.1 hread
    obtain ⟨closing, last, hclosing, hread⟩ := bind_eq_ok_iff.1 hread
    obtain ⟨hkind, rfl, rfl⟩ := expect_eq_ok_iff.1 hclosing
    cases hread
    exact ⟨element, inner, next, hinner, hkind, rfl, rfl, rfl⟩
  · rintro ⟨element, inner, next, hinner, hkind, rfl, rfl, rfl⟩
    refine ⟨parser.current.kind, parser, rfl, ?_⟩
    rw [if_pos (beq_iff_eq.2 hopening), bind_eq_ok_iff]
    refine ⟨parser.current, parser.advance, rfl, ?_⟩
    rw [bind_eq_ok_iff]
    refine ⟨(element, inner), next, hinner, ?_⟩
    rw [bind_eq_ok_iff]
    exact ⟨next.current, next.advance, expect_eq_ok_iff.2 ⟨hkind, rfl, rfl⟩, rfl⟩

/-- Without a bracket in front there is only a name to read. -/
theorem annotationWithin_succ_of_ne {bound : Nat} (hkind : parser.current.kind ≠ .openBracket) :
    annotationWithin (bound + 1) parser = typeName parser := by
  have hother : ¬(parser.current.kind == .openBracket) = true := by simpa using hkind
  change (if parser.current.kind == .openBracket then _ else typeName : Parse _) parser = _
  rw [if_neg hother]

/-- Within a bound, the reader takes just the annotations with fewer opening brackets. -/
theorem annotationWithin_eq_ok_iff {bound : Nat} :
    annotationWithin bound parser = .ok (type, span) after ↔
      ∃ depth, depth < bound ∧ parser.TypeAhead depth type ∧
        span = parser.current.span.spanning (parser.skip (2 * depth)).current.span ∧
        after = parser.skip (2 * depth + 1) := by
  induction bound generalizing parser type span after with
  | zero =>
      constructor
      · intro hread
        cases hread
      · rintro ⟨depth, hdepth, -⟩
        omega
  | succ bound ih =>
      by_cases hopening : parser.current.kind = .openBracket
      · rw [annotationWithin_succ_eq_ok_iff hopening]
        constructor
        · rintro ⟨element, inner, next, hinner, hclosing, rfl, rfl, rfl⟩
          obtain ⟨depth, hdepth, hahead, -, rfl⟩ := ih.1 hinner
          exact ⟨depth + 1, by omega, .array hopening hahead hclosing, rfl,
            Parser.advance_skip (2 * depth + 1) parser.advance⟩
        · rintro ⟨depth, hdepth, hahead, rfl, rfl⟩
          cases hahead with
          | simple hkind _ =>
              rw [hopening] at hkind
              cases hkind
          | @array depth element _ _ hinner hclosing =>
              refine ⟨element, _, _, ih.2 ⟨depth, by omega, hinner, rfl, rfl⟩, hclosing, rfl, rfl,
                ?_⟩
              exact (Parser.advance_skip (2 * depth + 1) parser.advance).symm
      · rw [annotationWithin_succ_of_ne hopening, typeName_eq_ok_iff]
        constructor
        · rintro ⟨hkind, hname, rfl, rfl⟩
          exact ⟨0, Nat.succ_pos _, .simple hkind hname, rfl, rfl⟩
        · rintro ⟨depth, -, hahead, rfl, rfl⟩
          cases hahead with
          | simple hkind hname => exact ⟨hkind, hname, rfl, rfl⟩
          | array hkind _ _ => exact absurd hkind hopening

/-- The reader takes just the annotations in front of it. -/
theorem annotation_eq_ok_iff :
    annotation parser = .ok (type, span) after ↔
      ∃ depth, parser.TypeAhead depth type ∧
        span = parser.current.span.spanning (parser.skip (2 * depth)).current.span ∧
        after = parser.skip (2 * depth + 1) := by
  unfold annotation
  rw [bounded, annotationWithin_eq_ok_iff]
  constructor
  · rintro ⟨depth, -, hread⟩
    exact ⟨depth, hread⟩
  · rintro ⟨depth, hahead, hread⟩
    exact ⟨depth, Nat.lt_succ_of_le hahead.depth_le, hahead, hread⟩

end Parse

/-! ### The tokens of an annotation -/

/-- A number of opening brackets, a name and as many closing brackets. -/
def TokenKind.bracketed (depth : Nat) : List TokenKind :=
  List.replicate depth .openBracket ++ .identifier :: List.replicate depth .closeBracket

theorem TokenKind.bracketed_succ (depth : Nat) :
    bracketed (depth + 1) = .openBracket :: (bracketed depth ++ [.closeBracket]) := by
  simp [bracketed, List.replicate_succ, ← List.replicate_succ']

/-- The tokens are a number of opening brackets, the name of a simple type and as many closing
brackets. -/
structure Token.MakeAnnotation (depth : Nat) (tokens : List Token) : Prop where
  kinds : tokens.map (·.kind) = TokenKind.bracketed depth
  name : ∃ token, tokens[depth]? = some token ∧
    token.value ∈ ["int", "float", "string", "bool", "void"]

theorem Ty.exists_ofName?_iff {name : String} :
    (∃ type, ofName? name = some type) ↔ name ∈ ["int", "float", "string", "bool", "void"] := by
  constructor
  · rintro ⟨type, htype⟩
    unfold ofName? at htype
    split at htype
    case h_6 => cases htype
    all_goals simp
  · simp only [List.mem_cons, List.not_mem_nil, or_false]
    rintro (rfl | rfl | rfl | rfl | rfl)
    all_goals exact ⟨_, rfl⟩

/-- A simple type is shown by its name. -/
theorem Ty.text_of_ofName? {name : String} {type : Ty} (h : ofName? name = some type) :
    type.text = name := by
  unfold ofName? at h
  split at h <;> cases h <;> rfl

/-- The outermost brackets belong together. -/
theorem Token.makeAnnotation_succ {depth : Nat} {opening closing : Token} {inner : List Token}
    (hlength : inner.length = 2 * depth + 1) :
    MakeAnnotation (depth + 1) (opening :: (inner ++ [closing])) ↔
      opening.kind = .openBracket ∧ MakeAnnotation depth inner ∧
        closing.kind = .closeBracket := by
  have hname : (opening :: (inner ++ [closing]))[depth + 1]? = inner[depth]? := by
    rw [List.getElem?_cons_succ, List.getElem?_append_left (by omega)]
  constructor
  · rintro ⟨hall, hfound⟩
    rw [TokenKind.bracketed_succ, List.map_cons, List.map_append] at hall
    obtain ⟨hopening, hrest⟩ := List.cons.inj hall
    obtain ⟨hinner, hclosing⟩ := List.append_inj' hrest rfl
    rw [hname] at hfound
    exact ⟨hopening, ⟨hinner, hfound⟩, (List.cons.inj hclosing).1⟩
  · rintro ⟨hopening, ⟨hinner, hfound⟩, hclosing⟩
    refine ⟨?_, by rwa [hname]⟩
    rw [TokenKind.bracketed_succ, List.map_cons, List.map_append, hinner, hopening,
      List.map_singleton, hclosing]

/-- One more pair of brackets around what is behind the first token. -/
theorem Parser.upcoming_around (depth : Nat) (parser : Parser) :
    parser.upcoming (2 * (depth + 1) + 1) =
      parser.current :: (parser.advance.upcoming (2 * depth + 1) ++
        [(parser.skip (2 * depth + 2)).current]) :=
  congrArg (parser.current :: ·) (upcoming_concat (2 * depth + 1) parser.advance)

/-- What stands in front of the parser is an annotation just if its tokens are. -/
theorem Parser.exists_typeAhead_iff {depth : Nat} {parser : Parser} :
    (∃ type, parser.TypeAhead depth type) ↔
      Token.MakeAnnotation depth (parser.upcoming (2 * depth + 1)) := by
  induction depth generalizing parser with
  | zero =>
      constructor
      · rintro ⟨type, ⟨hkind, hname⟩⟩
        exact ⟨congrArg (fun kind => [kind]) hkind, parser.current, rfl,
          Ty.exists_ofName?_iff.1 ⟨type, hname⟩⟩
      · rintro ⟨hkinds, _, ⟨⟩, hname⟩
        obtain ⟨type, htype⟩ := Ty.exists_ofName?_iff.2 hname
        exact ⟨type, .simple (List.cons.inj hkinds).1 htype⟩
  | succ depth ih =>
      rw [upcoming_around, Token.makeAnnotation_succ (length_upcoming _ _), ← ih]
      constructor
      · rintro ⟨type, hahead⟩
        cases hahead with
        | array hopening hinner hclosing => exact ⟨hopening, ⟨_, hinner⟩, hclosing⟩
      · rintro ⟨hopening, ⟨element, hinner⟩, hclosing⟩
        exact ⟨.array element, .array hopening hinner hclosing⟩

/-! ### The text of an annotation -/

/-- The sign by which a square bracket is written. -/
def TokenKind.bracket? : TokenKind → Option Char
  | openBracket => some '['
  | closeBracket => some ']'
  | _ => none

theorem TokenKind.bracket?_of_isWord {kind : TokenKind} (h : kind.isWord) :
    kind.bracket? = none := by
  cases kind <;> cases h <;> rfl

/-- A bracket is read from its sign only. -/
theorem Lexeme.text_of_bracket? {cs : List Char} {lexeme : Lexeme} {c : Char}
    (hread : lexeme? cs = some lexeme) (hc : lexeme.kind.bracket? = some c) :
    lexeme.text = [c] := by
  cases cs with
  | nil => cases hread
  | cons first cs =>
      simp only [lexeme?] at hread
      split at hread
      · cases hread
        rw [word, TokenKind.bracket?_of_isWord (TokenKind.isWord_ofWord _)] at hc
        cases hc
      · split at hread
        · cases hread
          rcases number_cases (first :: cs) with hnumber | ⟨decimals, -, -, hnumber⟩
          · rw [hnumber] at hc
            cases hc
          · rw [hnumber] at hc
            cases hc
        · split at hread
          · cases hread
            cases hc
          · unfold mark? at hread
            split at hread
            all_goals cases hread
            all_goals cases hc
            all_goals rfl

theorem TokenStream.Covers.value_of_bracket? {file : String} {cursor : Cursor}
    {stream : TokenStream} (h : Covers file cursor stream) {scan : Scan} {c : Char}
    (hscan : scan ∈ stream.scans) (hc : scan.token.kind.bracket? = some c) :
    scan.token.value = String.singleton c := by
  induction h with
  | ending => cases hscan
  | @lexeme cursor gap reports lexeme rest others _ _ hread _ ih =>
      rcases List.mem_cons.1 hscan with rfl | hscan
      · rw [Scan.token_behind, Scan.kind_ofLexeme] at hc
        have hkind : lexeme.kind ≠ .stringLiteral := by
          intro hstring
          rw [hstring] at hc
          cases hc
        rw [Scan.token_behind, Scan.value_ofLexeme, Lexeme.value_of_kind_ne hkind,
          Lexeme.text_of_bracket? hread hc]
        rfl
      · exact ih hscan

/-- A bracket among the tokens of a text stands for its sign. -/
theorem TokenStream.value_tokenAt_of_bracket? {file text : String} {place : Nat} {c : Char}
    (hc : ((ofText file text).tokenAt place).kind.bracket? = some c) :
    ((ofText file text).tokenAt place).value = String.singleton c := by
  rw [tokenAt] at hc ⊢
  cases hscan : (ofText file text).scans[place]? with
  | some scan =>
      rw [hscan] at hc
      exact (ofText_covers file text).value_of_bracket? (List.mem_of_getElem? hscan) hc
  | none =>
      rw [hscan, Option.getD_none, (ofText_ends file text).final] at hc
      cases hc

namespace Parser

variable {file text : String} {parser : Parser} {depth : Nat} {type : Ty}

theorem On.value_of_bracket? (h : parser.On (.ofText file text)) {c : Char}
    (hc : parser.current.kind.bracket? = some c) : parser.current.value = String.singleton c := by
  rw [h.current] at hc ⊢
  exact TokenStream.value_tokenAt_of_bracket? hc

/-- A type in front of a parser is shown by the text of its tokens. -/
theorem TypeAhead.text_eq (h : parser.TypeAhead depth type)
    (hon : parser.On (.ofText file text)) :
    type.text = String.join ((parser.upcoming (2 * depth + 1)).map (·.value)) := by
  induction h with
  | @simple type parser _ hname =>
      rw [Ty.text_of_ofName? hname]
      simp [upcoming, String.join_cons]
  | @array depth element parser hopening _ hclosing ih =>
      have hfirst : parser.current.value = String.singleton '[' :=
        hon.value_of_bracket? (by rw [hopening]; rfl)
      have hlast : (parser.skip (2 * depth + 2)).current.value = String.singleton ']' :=
        (hon.skip _).value_of_bracket? (by rw [hclosing]; rfl)
      rw [upcoming_around, List.map_cons, List.map_append, List.map_singleton, hfirst, hlast,
        String.join_cons, String.join_append, ← ih hon.advance, Ty.text]
      simp [String.join_cons, String.append_assoc]

end Parser

namespace Parse

/-- At every place of every text an annotation is read exactly.  It is read just if the next tokens
are some opening brackets, a name of a simple type and as many closing brackets.  Then just these
tokens are taken; the type is the one that is shown by their text; and its span reaches from the
start of the first to the end of the last of them. -/
theorem annotation_exact {file text : String} {parser : Parser}
    (hon : parser.On (.ofText file text)) :
    ((∃ read after, annotation parser = .ok read after) ↔
      ∃ depth, Token.MakeAnnotation depth (parser.upcoming (2 * depth + 1))) ∧
    ∀ depth, Token.MakeAnnotation depth (parser.upcoming (2 * depth + 1)) →
      let tokens := parser.upcoming (2 * depth + 1)
      ∃ type span after first last, annotation parser = .ok (type, span) after ∧
        after = parser.skip (2 * depth + 1) ∧ after.consumed = parser.consumed + tokens.length ∧
        (∀ other : Ty, other.text = String.join (tokens.map (·.value)) ↔ other = type) ∧
        tokens.head? = some first ∧ tokens.getLast? = some last ∧
        span.start = first.span.start ∧ span.stop = last.span.stop := by
  constructor
  · simp only [Prod.exists, annotation_eq_ok_iff, ← Parser.exists_typeAhead_iff]
    constructor
    · rintro ⟨type, span, after, depth, hahead, -⟩
      exact ⟨depth, type, hahead⟩
    · rintro ⟨depth, type, hahead⟩
      exact ⟨type, _, _, depth, hahead, rfl, rfl⟩
  · intro depth htokens
    obtain ⟨type, hahead⟩ := Parser.exists_typeAhead_iff.2 htokens
    have htext := hahead.text_eq hon
    have hread := annotation_eq_ok_iff.2 ⟨depth, hahead, rfl, rfl⟩
    refine ⟨type, _, _, parser.current, (parser.skip (2 * depth)).current, hread, rfl, ?_,
      fun other => ⟨?_, ?_⟩, rfl, ?_, rfl, rfl⟩
    · rw [Parser.consumed_skip, Parser.length_upcoming]
    · exact fun hother => Ty.eq_of_text_eq (hother.trans htext.symm)
    · rintro rfl
      exact htext
    · rw [Parser.upcoming_concat, List.getLast?_concat]

/-- The type of a parameter, in the middle of a text. -/
theorem annotation_exact_of_parameter :
    let parser := (Parser.ofText "rows" "fn sum(rows: [[int]])" 0).skip 5
    parser.On (.ofText "rows" "fn sum(rows: [[int]])") ∧
      Token.MakeAnnotation 2 (parser.upcoming 5) ∧
      ∃ type span, annotation parser = .ok (type, span) (parser.skip 5) ∧
        type.text = "[[int]]" := by
  intro parser
  have hon : parser.On (.ofText "rows" "fn sum(rows: [[int]])") := (Parser.On.start _ 0).skip 5
  have htokens : Token.MakeAnnotation 2 (parser.upcoming (2 * 2 + 1)) :=
    ⟨by decide +kernel, (parser.skip 2).current, rfl, by decide +kernel⟩
  have htext : String.join ((parser.upcoming 5).map (·.value)) = "[[int]]" := by decide +kernel
  obtain ⟨type, span, _, _, _, hread, rfl, -, hshown, -⟩ := (annotation_exact hon).2 2 htokens
  exact ⟨hon, htokens, type, span, hread, ((hshown type).2 rfl).trans htext⟩

end Parse

end Quill
