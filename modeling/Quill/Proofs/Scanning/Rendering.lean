import Quill.Proofs.Layout
import Quill.Proofs.Scanning.Anatomy

/-!
# Scanning what was rendered

Rendering writes the tokens of a text with one space between neighbours, and closes a string that
was left open.  The lexemes of such a text are whole, and every lexeme ends in front of a space.  So
scanning the rendered text gives the same tokens again and finds no problem, also where the first
text had stray characters or an open string.
-/

namespace Quill

/-- One space. -/
def Gap.space : Gap where
  chars := [' ']
  blank := by
    rw [List.forall_mem_singleton]
    decide

/-- Nothing in front of the first lexeme, and one space behind each. -/
def Layout.spaced : Layout
  | 0 => ⟨[], by simp⟩
  | _ + 1 => .space

namespace Layout

/-- Behind the first lexeme there are only single spaces. -/
theorem tail_spaced : spaced.tail = fun _ => .space := rfl

/-- Single spaces around texts are one space in front of the texts joined by spaces. -/
theorem write_spaces (lexemes : List Lexeme) :
    write (fun _ => .space) lexemes =
      ' ' :: (" ".intercalate (lexemes.map (String.ofList ·.text) ++ [""])).toList := by
  induction lexemes with
  | nil => rfl
  | cons lexeme rest ih =>
      have htail : tail (fun _ => .space) = fun _ => .space := rfl
      rw [write, htail, ih, List.map_cons, List.cons_append,
        String.intercalate_cons_of_ne_nil (by simp)]
      simp [Gap.space]

/-- Joining texts by spaces writes them with single spaces. -/
theorem write_spaced (lexemes : List Lexeme) :
    String.ofList (spaced.write lexemes) =
      " ".intercalate (lexemes.map (String.ofList ·.text) ++ [""]) := by
  cases lexemes with
  | nil => rfl
  | cons lexeme rest =>
      rw [write, tail_spaced, write_spaces, List.map_cons, List.cons_append,
        String.intercalate_cons_of_ne_nil (by simp)]
      apply String.toList_inj.1
      simp [spaced]

/-- Single spaces separate whole lexemes. -/
theorem separates_spaces {lexemes : List Lexeme} (hwhole : ∀ lexeme ∈ lexemes, lexeme.Whole) :
    Separates (fun _ => .space) lexemes := by
  induction lexemes with
  | nil => trivial
  | cons lexeme rest ih =>
      have hrest := ih fun other hother => hwhole other (List.mem_cons_of_mem _ hother)
      refine ⟨hwhole lexeme List.mem_cons_self, ?_, hrest⟩
      intro c hc
      change c ∈ (write (fun _ => .space) rest).head? at hc
      rw [write_spaces] at hc
      obtain rfl : ' ' = c := by simpa using hc
      exact lexeme.endsBefore_of_isBlank (by decide)

/-- Whole lexemes joined by spaces are separated. -/
theorem separates_spaced {lexemes : List Lexeme} (hwhole : ∀ lexeme ∈ lexemes, lexeme.Whole) :
    spaced.Separates lexemes := by
  cases lexemes with
  | nil => trivial
  | cons lexeme rest =>
      -- Only the gap in front of the first lexeme is another one.
      exact separates_spaces hwhole

end Layout

namespace Lexeme

/-- The lexeme as it is rendered: a string gets the closing quote that it may lack. -/
def closed (lexeme : Lexeme) : Lexeme :=
  if lexeme.kind == .stringLiteral then
    ⟨.stringLiteral, '"' :: (lexeme.value ++ ['"'])⟩
  else
    lexeme

/-- A lexeme other than a string is rendered as it is. -/
theorem closed_of_kind_ne {lexeme : Lexeme} (hkind : lexeme.kind ≠ .stringLiteral) :
    lexeme.closed = lexeme := by
  rw [closed, beq_eq_false_iff_ne.2 hkind]
  rfl

/-- Every lexeme of a text is rendered as a whole lexeme that says the same. -/
theorem closed_of_stands {lexeme : Lexeme} {rest : List Char} (h : lexeme.Stands rest) :
    lexeme.closed.Whole ∧ lexeme.closed.content = lexeme.content := by
  -- Both kinds of strings are rendered alike.
  have hstring : ∀ {inner : List Char}, '"' ∉ inner → lexeme.kind = .stringLiteral →
      lexeme.value = inner →
      lexeme.closed.Whole ∧ lexeme.closed.content = lexeme.content := by
    intro inner hunquoted hkind hvalue
    have hclosed : lexeme.closed = ⟨.stringLiteral, '"' :: (inner ++ ['"'])⟩ := by
      rw [closed, hkind, hvalue, beq_self_eq_true, if_pos rfl]
    rw [hclosed]
    constructor
    · exact whole_quoted hunquoted
    · rw [content, content, value_quoted hunquoted, hkind, hvalue]
  cases h with
  | plain hkind hread =>
      rw [closed_of_kind_ne hkind]
      refine ⟨⟨hread, ?_⟩, rfl⟩
      rw [isUnterminated, beq_eq_false_iff_ne.2 hkind, Bool.false_and]
  | closed inner hunquoted heq =>
      subst heq
      exact hstring hunquoted rfl (value_quoted hunquoted)
  | unclosed inner hunquoted heq _ =>
      subst heq
      exact hstring hunquoted rfl (value_unclosed hunquoted)

end Lexeme

/-- A token is rendered as its lexeme is. -/
theorem Scan.sourceText_ofLexeme {file : String} {lexeme : Lexeme} {rest : List Char}
    (hread : lexeme? (lexeme.text ++ rest) = some lexeme) (first last : Cursor) :
    (ofLexeme file lexeme first last).token.sourceText = String.ofList lexeme.closed.text := by
  have hend := Lexeme.kind_ne_endOfInput hread
  rw [Token.sourceText, kind_ofLexeme, value_ofLexeme]
  by_cases hstring : lexeme.kind = .stringLiteral
  · rw [Lexeme.closed, hstring]
    apply String.toList_inj.1
    simp
  · rw [Lexeme.closed_of_kind_ne hstring, Lexeme.value_of_kind_ne hstring]
    split
    · next heq => exact absurd heq hstring
    · next heq => exact absurd heq hend
    · rfl

namespace TokenStream

/-- The lexemes as which the tokens of a stream are rendered. -/
structure RenderedAs (stream : TokenStream) (lexemes : List Lexeme) : Prop where
  whole : ∀ lexeme ∈ lexemes, lexeme.Whole
  contents : stream.scans.map (·.token.content) = lexemes.map (·.content)
  texts : stream.scans.map (·.token.sourceText) = lexemes.map (String.ofList ·.text)
  ends : stream.final.token.content = (.endOfInput, "EOF")

/-- The tokens of every text are rendered as whole lexemes. -/
theorem Covers.renderedAs {file : String} {cursor : Cursor} {stream : TokenStream}
    (h : Covers file cursor stream) : ∃ lexemes, stream.RenderedAs lexemes := by
  induction h with
  | ending => exact ⟨[], by simp, rfl, rfl, rfl⟩
  | @lexeme cursor gap reports lexeme rest others hafter hfiller hread _ ih =>
      obtain ⟨lexemes, hothers⟩ := ih
      obtain ⟨last, htext, hstands⟩ := lexeme?_stands hread
      obtain ⟨hwhole, hcontent⟩ := Lexeme.closed_of_stands hstands
      refine ⟨lexeme.closed :: lexemes, ?_, ?_, ?_, hothers.ends⟩
      · intro other hother
        rcases List.mem_cons.1 hother with rfl | hother
        · exact hwhole
        · exact hothers.whole other hother
      · rw [List.map_cons, List.map_cons, hothers.contents, hcontent, Scan.token_behind,
          Scan.content_ofLexeme]
      · rw [List.map_cons, List.map_cons, hothers.texts, Scan.token_behind,
          Scan.sourceText_ofLexeme hread]

/-- The rendered text is the lexemes with single spaces between them. -/
theorem RenderedAs.render {stream : TokenStream} {lexemes : List Lexeme}
    (h : stream.RenderedAs lexemes) :
    stream.render = String.ofList (Layout.spaced.write lexemes) := by
  have hkind : stream.final.token.kind = .endOfInput := congrArg Prod.fst h.ends
  have hlast : stream.final.token.sourceText = "" := by
    rw [Token.sourceText, hkind]
  have htexts : stream.tokens.map (·.sourceText) =
      lexemes.map (String.ofList ·.text) ++ [""] := by
    rw [tokens, List.map_append, List.map_map, List.map_singleton, hlast, ← h.texts]
    rfl
  rw [TokenStream.render, htexts, Layout.write_spaced]

/-- Scanning what was rendered gives the same tokens, up to their places, and no problem: for every
text, whatever was wrong with it. -/
theorem scan_render (file again text : String) :
    let stream := ofText file text
    let rescanned := ofText again stream.render
    rescanned.tokens.map (·.content) = stream.tokens.map (·.content) ∧
      rescanned.diagnostics = [] := by
  intro stream rescanned
  obtain ⟨lexemes, hrendered⟩ := (ofText_covers file text).renderedAs
  obtain ⟨others, hagain⟩ := (ofText_covers again stream.render).renderedAs
  have hspells : rescanned.Spells lexemes := by
    have h := spells_ofText again (Layout.separates_spaced hrendered.whole)
    rwa [← hrendered.render] at h
  constructor
  · have hscans : (rescanned.scans.map (·.token)).map (·.content) =
        (stream.scans.map (·.token)).map (·.content) := by
      rw [List.map_map, List.map_map]
      exact hspells.contents.trans hrendered.contents.symm
    rw [tokens, tokens, List.map_append, List.map_append, hscans, List.map_singleton,
      List.map_singleton, hagain.ends, hrendered.ends]
  · rw [diagnostics, hspells.quietEnd, List.append_nil]
    exact List.flatMap_eq_nil_iff.2 hspells.quiet

end TokenStream

end Quill
