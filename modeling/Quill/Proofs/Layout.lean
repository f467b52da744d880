import Quill.Proofs.Lexing

/-!
# Written lexemes

A sequence of lexemes is written down with a run of blanks, which may be empty, in front of each of
them and at the end.  Scanning gives the sequence back if every lexeme ends in front of what follows
it.  A sequence in which every lexeme ends in front of the next one needs no blanks at all, and it
bears any.
-/

namespace Quill

/-- A run of blanks. -/
structure Gap where
  chars : List Char
  blank : ∀ c ∈ chars, Text.isBlank c

/-- The blanks in front of each lexeme of a sequence; those after the last one come next. -/
abbrev Layout := Nat → Gap

namespace Layout

/-- The blanks that are left behind the first lexeme. -/
def tail (layout : Layout) : Layout := fun place => layout (place + 1)

/-- The text of a sequence of lexemes with the blanks around them. -/
def write : Layout → List Lexeme → List Char
  | layout, [] => (layout 0).chars
  | layout, lexeme :: rest => (layout 0).chars ++ (lexeme.text ++ write layout.tail rest)

/-- Whether every lexeme of a sequence is whole and ends in front of what follows it. -/
def Separates : Layout → List Lexeme → Prop
  | _, [] => True
  | layout, lexeme :: rest =>
    lexeme.Whole ∧ (∀ c ∈ (layout.tail.write rest).head?, lexeme.endsBefore c) ∧
      Separates layout.tail rest

/-- Written lexemes take at least a character each. -/
theorem length_le_write (layout : Layout) {lexemes : List Lexeme}
    (hseparates : layout.Separates lexemes) : lexemes.length ≤ (layout.write lexemes).length := by
  induction lexemes generalizing layout with
  | nil => simp
  | cons lexeme rest ih =>
      obtain ⟨hwhole, -, hrest⟩ := hseparates
      obtain ⟨c, hstart⟩ := hwhole.start
      obtain ⟨cs, htext⟩ := List.head?_eq_some_iff.1 hstart.head
      have hmore := ih layout.tail hrest
      simp only [write, htext, List.length_append, List.length_cons]
      omega

end Layout

/-- Whether every lexeme of a sequence is whole and ends in front of the next one. -/
def Lexeme.Apart : List Lexeme → Prop
  | [] => True
  | lexeme :: rest =>
    lexeme.Whole ∧ (∀ next ∈ rest.head?, ∀ c ∈ next.text.head?, lexeme.endsBefore c) ∧ Apart rest

/-- Lexemes that end in front of each other bear any blanks between them, and need none. -/
theorem Layout.separates_of_apart {lexemes : List Lexeme} (hapart : Lexeme.Apart lexemes)
    (layout : Layout) : layout.Separates lexemes := by
  induction lexemes generalizing layout with
  | nil => trivial
  | cons lexeme rest ih =>
      obtain ⟨hwhole, hends, hrest⟩ := hapart
      refine ⟨hwhole, ?_, ih hrest layout.tail⟩
      intro c hc
      -- the character behind the lexeme is a blank, or the first one of the next lexeme
      rcases hgap : (layout.tail 0).chars with _ | ⟨blank, blanks⟩
      · cases rest with
        | nil =>
            rw [write, hgap] at hc
            cases hc
        | cons next others =>
            obtain ⟨hnext, -⟩ := hrest
            obtain ⟨d, hstart⟩ := hnext.start
            obtain ⟨ds, htext⟩ := List.head?_eq_some_iff.1 hstart.head
            rw [write, hgap, htext] at hc
            obtain rfl : d = c := by simpa using hc
            exact hends next (by simp) d hstart.head
      · have hblank : Text.isBlank blank := (layout.tail 0).blank blank (by simp [hgap])
        have hfirst : (layout.tail.write rest).head? = some blank := by
          cases rest <;> simp [write, hgap]
        rw [hfirst] at hc
        obtain rfl : blank = c := by simpa using hc
        exact lexeme.endsBefore_of_isBlank hblank

/-- What a token says, wherever it stands. -/
def Token.content (token : Token) : TokenKind × String :=
  (token.kind, token.value)

/-- What the token of a lexeme says. -/
def Lexeme.content (lexeme : Lexeme) : TokenKind × String :=
  (lexeme.kind, String.ofList lexeme.value)

/-- A stream of tokens that says what the lexemes of a sequence say, without any problem. -/
structure TokenStream.Spells (stream : TokenStream) (lexemes : List Lexeme) : Prop where
  contents : stream.scans.map (·.token.content) = lexemes.map (·.content)
  quiet : ∀ scan ∈ stream.scans, scan.problems = []
  ends : stream.final.token.kind = .endOfInput
  quietEnd : stream.final.problems = []

namespace Scan

/-- The token of a lexeme says what the lexeme says. -/
theorem content_ofLexeme (file : String) (lexeme : Lexeme) (first last : Cursor) :
    (ofLexeme file lexeme first last).token.content = lexeme.content := by
  simp only [ofLexeme]
  split <;> rfl

/-- A closed lexeme is no problem. -/
theorem problems_ofLexeme (file : String) {lexeme : Lexeme}
    (hclosed : lexeme.isUnterminated = false) (first last : Cursor) :
    (ofLexeme file lexeme first last).problems = [] := by
  simp only [ofLexeme, hclosed]
  split <;> rfl

/-- The next token after some blanks and a lexeme is the token of the lexeme. -/
theorem next_lexeme (file : String) (bound : Nat) {cursor : Cursor} {gap : Gap} {lexeme : Lexeme}
    {rest : List Char} (hwhole : lexeme.Whole) (hends : ∀ c ∈ rest.head?, lexeme.endsBefore c)
    (hafter : cursor.after = gap.chars ++ (lexeme.text ++ rest)) :
    (next file (bound + 1) cursor).1.token.content = lexeme.content ∧
      (next file (bound + 1) cursor).1.problems = [] ∧
        (next file (bound + 1) cursor).2.after = rest := by
  have hskip : cursor.skipTrivia.after = lexeme.text ++ rest := by
    rw [Cursor.skipTrivia, Cursor.after_advance, hafter, triviaLength_blanks gap.blank,
      triviaLength_append hwhole hends]
    simp
  have hread := lexeme?_append hwhole hends
  have hnext : next file (bound + 1) cursor =
      (ofLexeme file lexeme cursor.skipTrivia (cursor.skipTrivia.advance lexeme.text.length),
        cursor.skipTrivia.advance lexeme.text.length) := by
    rw [next]
    simp only
    split
    · next hnil =>
        rw [← hskip, hnil] at hread
        cases hread
    · next c cs hcons =>
        rw [← hcons, hskip, hread]
  rw [hnext]
  refine ⟨content_ofLexeme _ _ _ _, problems_ofLexeme _ hwhole.closed _ _, ?_⟩
  simp [hskip]

/-- After some blanks, and nothing else, comes the end. -/
theorem next_end (file : String) (bound : Nat) {cursor : Cursor} {gap : Gap}
    (hafter : cursor.after = gap.chars) :
    (next file (bound + 1) cursor).1 = atEnd file cursor.skipTrivia := by
  have hskip : cursor.skipTrivia.after = [] := by
    have hlength := triviaLength_blanks gap.blank []
    rw [List.append_nil] at hlength
    rw [Cursor.skipTrivia, Cursor.after_advance, hafter, hlength]
    simp
  rw [next]
  simp only [hskip]

end Scan

namespace TokenStream

/-- Reading on after a cursor, one finds the lexemes that are written there. -/
theorem spells_startingAt (file : String) {lexemes : List Lexeme} :
    ∀ {layout : Layout} {bound : Nat} {cursor : Cursor}, layout.Separates lexemes →
      lexemes.length < bound → cursor.after = layout.write lexemes →
      (startingAt file bound cursor).Spells lexemes := by
  induction lexemes with
  | nil =>
      intro layout bound cursor _ hbound hafter
      obtain ⟨bound, rfl⟩ := Nat.exists_eq_add_one_of_ne_zero (Nat.ne_zero_of_lt hbound)
      have hnext := Scan.next_end file bound hafter
      have hkind : (Scan.next file (bound + 1) cursor).1.token.kind = .endOfInput := by
        rw [hnext]
        rfl
      rw [startingAt]
      simp only [hkind, beq_self_eq_true, if_true]
      exact ⟨rfl, by simp, hkind, by rw [hnext]; rfl⟩
  | cons lexeme rest ih =>
      intro layout bound cursor hseparates hbound hafter
      obtain ⟨hwhole, hends, hrest⟩ := hseparates
      obtain ⟨bound, rfl⟩ := Nat.exists_eq_add_one_of_ne_zero (Nat.ne_zero_of_lt hbound)
      obtain ⟨hcontent, hquiet, hmore⟩ := Scan.next_lexeme file bound hwhole hends hafter
      have hothers := ih hrest (Nat.lt_of_succ_lt_succ hbound) hmore
      have hkind : (Scan.next file (bound + 1) cursor).1.token.kind = lexeme.kind :=
        congrArg Prod.fst hcontent
      obtain ⟨c, hstart⟩ := hwhole.start
      have hgoes : (lexeme.kind == .endOfInput) = false := beq_eq_false_iff_ne.2 hstart.kind
      rw [startingAt]
      simp only [hkind, hgoes]
      refine ⟨?_, ?_, hothers.ends, hothers.quietEnd⟩
      · simp [hcontent, hothers.contents]
      · intro scan hscan
        rcases List.mem_cons.1 hscan with rfl | hscan
        · exact hquiet
        · exact hothers.quiet scan hscan

/-- Scanning gives back the lexemes that are written in a text. -/
theorem spells_ofText (file : String) {layout : Layout} {lexemes : List Lexeme}
    (hseparates : layout.Separates lexemes) :
    (ofText file (String.ofList (layout.write lexemes))).Spells lexemes := by
  have hbound := layout.length_le_write hseparates
  refine spells_startingAt file hseparates ?_ ?_
  · rw [String.toList_ofList]
    omega
  · rw [String.toList_ofList]
    rfl

end TokenStream

end Quill
