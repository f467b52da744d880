import Quill.Scan

/-!
# Where lexemes end

A lexeme is read as far as it goes, so a text that follows it directly can lengthen it.
`endsBefore` says which characters cannot.  A lexeme that is read from its own text is read in the
same way in front of every such character (`lexeme?_append`).
-/

namespace Quill

namespace Text

/-- Ranges that lie apart have no character in common. -/
theorem inRanges_disjoint {first second : List CodeRange}
    (hapart : ∀ r ∈ first, ∀ s ∈ second, r.2 < s.1 ∨ s.2 < r.1) {c : Char}
    (hfirst : inRanges first c) : inRanges second c = false := by
  rw [inRanges, List.any_eq_true] at hfirst
  obtain ⟨r, hr, hin⟩ := hfirst
  rw [inRanges, List.any_eq_false]
  intro s hs
  have h := hapart r hr s hs
  simp only [Bool.and_eq_true, decide_eq_true_eq] at hin ⊢
  omega

/-- The plain blanks come first among the plain characters. -/
theorem toNat_of_isBlank {c : Char} (hblank : isBlank c) (hplain : isPlain c) : c.toNat ≤ 32 := by
  simp only [isBlank, inRanges, blankRanges, isPlain, List.any_cons, List.any_nil, Bool.or_eq_true,
    Bool.and_eq_true, decide_eq_true_eq, Bool.or_false] at hblank hplain
  omega

/-- The plain digits stand together. -/
theorem toNat_of_isDigit {c : Char} (h : c.isDigit) : 48 ≤ c.toNat ∧ c.toNat ≤ 57 := by
  simp only [Char.isDigit, Bool.and_eq_true, decide_eq_true_eq, ge_iff_le,
    UInt32.le_iff_toNat_le] at h
  exact h

/-- The plain letters come after the digits. -/
theorem toNat_of_isAlpha {c : Char} (h : c.isAlpha) : 65 ≤ c.toNat := by
  rcases Bool.or_eq_true_iff.1 h with hupper | hlower
  · have hbounds : 'A'.val ≤ c.val ∧ c.val ≤ 'Z'.val := of_decide_eq_true hupper
    exact UInt32.le_iff_toNat_le.1 hbounds.1
  · have hbound : 'a'.val ≤ c.val := of_decide_eq_true (Bool.and_eq_true_iff.1 hlower).1
    have hfirst : 97 ≤ c.toNat := UInt32.le_iff_toNat_le.1 hbound
    omega

/-- No blank is a letter. -/
theorem isLetter_of_isBlank {c : Char} (hblank : isBlank c) : isLetter c = false := by
  rw [isLetter]
  split
  · next hplain =>
      rw [Bool.eq_false_iff]
      intro halpha
      have hlow := toNat_of_isBlank hblank hplain
      have hhigh := toNat_of_isAlpha halpha
      omega
  · exact inRanges_disjoint (by decide +kernel) hblank

/-- No blank is a digit. -/
theorem isDigit_of_isBlank {c : Char} (hblank : isBlank c) : c.isDigit = false := by
  rw [Bool.eq_false_iff]
  intro hdigit
  have hrange := toNat_of_isDigit hdigit
  have hplain : isPlain c := by
    simp only [isPlain, decide_eq_true_eq]
    omega
  have hlow := toNat_of_isBlank hblank hplain
  omega

/-- No blank is a numeral. -/
theorem isNumeral_of_isBlank {c : Char} (hblank : isBlank c) : isNumeral c = false := by
  rw [isNumeral]
  split
  · exact isDigit_of_isBlank hblank
  · exact inRanges_disjoint (by decide +kernel) hblank

/-- The digits are no letters. -/
theorem isLetter_of_isDigit {c : Char} (hdigit : c.isDigit) : isLetter c = false := by
  have hrange := toNat_of_isDigit hdigit
  rw [isLetter, if_pos (by simp only [isPlain, decide_eq_true_eq]; omega), Bool.eq_false_iff]
  intro halpha
  have hhigh := toNat_of_isAlpha halpha
  omega

end Text

namespace Lexeme

/-- No blank goes on with a word. -/
theorem isWordPart_of_isBlank {c : Char} (hblank : Text.isBlank c) : isWordPart c = false := by
  have hunderscore : c ≠ '_' := by
    rintro rfl
    exact absurd hblank (by decide)
  simp [isWordPart, Text.isLetter_of_isBlank hblank, Text.isNumeral_of_isBlank hblank, hunderscore]

/-- What starts a word can also go on with one. -/
theorem isWordPart_of_isWordStart {c : Char} (h : isWordStart c) : isWordPart c := by
  simp only [isWordStart, isWordPart, Bool.or_eq_true] at h ⊢
  rcases h with h | h
  · exact .inl (.inl h)
  · exact .inr h

/-- No digit starts a word. -/
theorem isWordStart_of_isDigit {c : Char} (hdigit : c.isDigit) : isWordStart c = false := by
  have hunderscore : c ≠ '_' := by
    rintro rfl
    exact absurd hdigit (by decide)
  simp [isWordStart, Text.isLetter_of_isDigit hdigit, hunderscore]

end Lexeme

namespace TokenKind

/-- Whether tokens of the kind are words. -/
def isWord : TokenKind → Bool
  | identifier | trueWord | falseWord | fnWord | letWord | returnWord | ifWord | elseWord
  | whileWord | forWord | inWord => true
  | _ => false

/-- Every run of word characters is a word. -/
theorem isWord_ofWord (word : String) : (ofWord word).isWord := by
  unfold ofWord
  split <;> rfl

end TokenKind

namespace Lexeme

/-- Whether the lexeme is read to its end, and no further, in front of a character. -/
def endsBefore (lexeme : Lexeme) (c : Char) : Bool :=
  if lexeme.kind.isWord then
    !isWordPart c
  else
    match lexeme.kind with
    | .intLiteral => !c.isDigit && c != '.'
    | .floatLiteral => !c.isDigit
    | .assign | .less | .greater | .bang => c != '='
    | .slash => c != '/'
    | _ => true

/-- A lexeme that is read from its own text, with its closing quote if it has an opening one. -/
structure Whole (lexeme : Lexeme) : Prop where
  read : lexeme? lexeme.text = some lexeme
  closed : lexeme.isUnterminated = false

/-- Every lexeme ends in front of a blank. -/
theorem endsBefore_of_isBlank (lexeme : Lexeme) {c : Char} (hblank : Text.isBlank c) :
    lexeme.endsBefore c := by
  have hword := isWordPart_of_isBlank hblank
  have hdigit := Text.isDigit_of_isBlank hblank
  have hmark : c ≠ '.' ∧ c ≠ '=' ∧ c ≠ '/' := by
    refine ⟨?_, ?_, ?_⟩ <;>
    · rintro rfl
      exact absurd hblank (by decide)
  unfold endsBefore
  split
  · simp [hword]
  · split <;> simp [hdigit, hmark]

/-- A run of characters of one kind ends where another kind of character follows. -/
theorem takeWhile_append_of_head {p : Char → Bool} {run rest : List Char} (hrun : ∀ c ∈ run, p c)
    (hrest : ∀ c ∈ rest.head?, p c = false) :
    (run ++ rest).takeWhile p = run ∧ (run ++ rest).dropWhile p = rest := by
  rw [List.takeWhile_append_of_pos hrun, List.dropWhile_append_of_pos hrun]
  cases rest with
  | nil => simp
  | cons c rest =>
      have hc := hrest c (by simp)
      simp [hc]

/-- A text that is its own run has no other characters. -/
theorem all_of_takeWhile {p : Char → Bool} {text : List Char} (h : text.takeWhile p = text) :
    ∀ c ∈ text, p c := by
  have hall := List.all_takeWhile (p := p) (l := text)
  rwa [h, List.all_eq_true] at hall

/-- The end of a word is where no word character follows. -/
theorem word_append {text rest : List Char} (hread : (word text).text = text)
    (hrest : ∀ c ∈ rest.head?, isWordPart c = false) : word (text ++ rest) = word text := by
  have hall : ∀ c ∈ text, isWordPart c := all_of_takeWhile hread
  have htake := (takeWhile_append_of_head hall hrest).1
  simp only [word] at hread ⊢
  rw [htake, hread]

/-- The digits of a whole number end where neither a digit nor a point follows. -/
theorem number_of_digits {digits rest : List Char} (hdigits : ∀ c ∈ digits, c.isDigit)
    (hrest : ∀ c ∈ rest.head?, c.isDigit = false ∧ c ≠ '.') :
    number (digits ++ rest) = ⟨.intLiteral, digits⟩ := by
  obtain ⟨htake, hdrop⟩ := takeWhile_append_of_head hdigits fun c hc => (hrest c hc).1
  cases rest with
  | nil => simp only [number, htake, hdrop]
  | cons c rest =>
      have hc := (hrest c (by simp)).2
      simp only [number, htake, hdrop]
      split
      · next heq => exact absurd (List.cons.inj heq).1 hc
      · rfl

/-- The digits behind a point end where no digit follows. -/
theorem number_of_decimals {whole decimals rest : List Char} (hwhole : ∀ c ∈ whole, c.isDigit)
    (hdecimals : ∀ c ∈ decimals, c.isDigit) (hsome : decimals ≠ [])
    (hrest : ∀ c ∈ rest.head?, c.isDigit = false) :
    number (whole ++ '.' :: decimals ++ rest) = ⟨.floatLiteral, whole ++ '.' :: decimals⟩ := by
  have hpoint : ∀ c ∈ ('.' :: (decimals ++ rest)).head?, c.isDigit = false := by
    intro c hc
    obtain rfl : '.' = c := by simpa using hc
    decide
  obtain ⟨htake, hdrop⟩ := takeWhile_append_of_head hwhole hpoint
  have hmore := (takeWhile_append_of_head hdecimals hrest).1
  rw [List.append_assoc, List.cons_append]
  simp only [number, htake, hdrop, hmore]

/-- A number is a run of digits, or two of them with a point between. -/
theorem number_cases (text : List Char) :
    number text = ⟨.intLiteral, text.takeWhile Char.isDigit⟩ ∨
      ∃ decimals, decimals ≠ [] ∧ (∀ c ∈ decimals, c.isDigit) ∧
        number text = ⟨.floatLiteral, text.takeWhile Char.isDigit ++ '.' :: decimals⟩ := by
  simp only [number]
  split
  · next more _ =>
      split
      · exact .inl rfl
      · next hsome =>
          have hdigits := List.all_takeWhile (p := Char.isDigit) (l := more)
          rw [List.all_eq_true] at hdigits
          exact .inr ⟨more.takeWhile Char.isDigit, hsome, hdigits, rfl⟩
  · exact .inl rfl

/-- The end of a number is where no digit follows and, behind digits only, no point. -/
theorem number_append {text rest : List Char} (hread : (number text).text = text)
    (hrest : ∀ c ∈ rest.head?, (number text).endsBefore c) :
    number (text ++ rest) = number text := by
  have hwhole := List.all_takeWhile (p := Char.isDigit) (l := text)
  rw [List.all_eq_true] at hwhole
  rcases number_cases text with h | ⟨decimals, hsome, hdecimals, h⟩
  -- Digits alone would also be lengthened by a point.
  · rw [h] at hread hrest ⊢
    have hnext : ∀ c ∈ rest.head?, c.isDigit = false ∧ c ≠ '.' := by
      intro c hc
      simpa [endsBefore, TokenKind.isWord] using hrest c hc
    have htext : text.takeWhile Char.isDigit = text := hread
    rw [← number_of_digits hwhole hnext, htext]
  · rw [h] at hread hrest ⊢
    have hnext : ∀ c ∈ rest.head?, c.isDigit = false := by
      intro c hc
      simpa [endsBefore, TokenKind.isWord] using hrest c hc
    have htext : text.takeWhile Char.isDigit ++ '.' :: decimals = text := hread
    rw [← number_of_decimals hwhole hdecimals hsome hnext, htext]

/-- The characters of a string are read up to its closing quote. -/
theorem throughQuote_append {cs rest : List Char} (hclosed : cs.contains '"') :
    throughQuote (cs ++ rest) = throughQuote cs := by
  induction cs with
  | nil => simp at hclosed
  | cons c cs ih =>
      simp only [List.cons_append, throughQuote]
      split
      · rfl
      · next hc =>
          have hlater : cs.contains '"' := by
            rw [List.contains_cons, Bool.or_eq_true] at hclosed
            rcases hclosed with heq | hlater
            · rw [beq_iff_eq] at heq hc
              exact absurd heq.symm hc
            · exact hlater
          rw [ih hlater]

/-- A mark is read in front of every character that makes no longer mark with it. -/
theorem mark?_append {lexeme : Lexeme} {rest : List Char}
    (hread : mark? lexeme.text = some lexeme)
    (hrest : ∀ c ∈ rest.head?, lexeme.endsBefore c) :
    mark? (lexeme.text ++ rest) = some lexeme := by
  obtain ⟨kind, text⟩ := lexeme
  simp only at hread ⊢
  unfold mark? at hread
  split at hread
  all_goals
    cases hread
    try rfl
  -- the marks that an equals sign would lengthen
  all_goals
    rcases rest with _ | ⟨c, rest⟩
    · rfl
    · have hc : c ≠ '=' := by simpa [endsBefore, TokenKind.isWord] using hrest c (by simp)
      simp [mark?, hc]

/-- How a lexeme starts: with a character that is no blank, and with a slash only if it is the
operator. -/
structure StartsWith (lexeme : Lexeme) (c : Char) : Prop where
  head : lexeme.text.head? = some c
  kind : lexeme.kind ≠ .endOfInput
  blank : Text.isBlank c = false
  slash : c = '/' → lexeme = ⟨.slash, ['/']⟩

/-- A word starts with its first character. -/
theorem word_start {c : Char} {cs : List Char} (hstart : isWordStart c) :
    (word (c :: cs)).StartsWith c where
  head := by simp [word, isWordPart_of_isWordStart hstart]
  kind := by
    intro hkind
    have hword := TokenKind.isWord_ofWord (String.ofList ((c :: cs).takeWhile isWordPart))
    have hend : TokenKind.ofWord (String.ofList ((c :: cs).takeWhile isWordPart)) = .endOfInput :=
      hkind
    rw [hend] at hword
    exact absurd hword (by decide)
  blank := by
    rw [Bool.eq_false_iff]
    intro hblank
    have hpart := isWordPart_of_isBlank hblank
    rw [isWordPart_of_isWordStart hstart] at hpart
    exact absurd hpart (by decide)
  slash := by
    rintro rfl
    exact absurd hstart (by decide)

/-- A number starts with its first digit. -/
theorem number_start {c : Char} {cs : List Char} (hdigit : c.isDigit) :
    (number (c :: cs)).StartsWith c := by
  have hblank : Text.isBlank c = false := by
    rw [Bool.eq_false_iff]
    intro hblank
    rw [Text.isDigit_of_isBlank hblank] at hdigit
    exact absurd hdigit (by decide)
  have hslash : c ≠ '/' := by
    rintro rfl
    exact absurd hdigit (by decide)
  have hhead : (c :: cs).takeWhile Char.isDigit = c :: cs.takeWhile Char.isDigit := by
    simp [hdigit]
  rcases number_cases (c :: cs) with h | ⟨decimals, -, -, h⟩
  · rw [h, hhead]
    exact ⟨rfl, by simp, hblank, fun heq => absurd heq hslash⟩
  · rw [h, hhead]
    exact ⟨rfl, by simp, hblank, fun heq => absurd heq hslash⟩

/-- A mark starts with its first sign. -/
theorem mark?_start {c : Char} {cs : List Char} {lexeme : Lexeme}
    (hread : mark? (c :: cs) = some lexeme) : lexeme.StartsWith c := by
  unfold mark? at hread
  split at hread
  all_goals
    cases hread
    try
      rename_i heq
      obtain rfl := (List.cons.inj heq).1
      exact ⟨rfl, by decide, by decide, by decide⟩

end Lexeme

/-- A lexeme starts where the text starts that it is read from. -/
theorem lexeme?_start {c : Char} {cs : List Char} {lexeme : Lexeme}
    (hread : lexeme? (c :: cs) = some lexeme) : lexeme.StartsWith c := by
  simp only [lexeme?] at hread
  split at hread
  · next hstart =>
      cases hread
      exact Lexeme.word_start hstart
  · split at hread
    · next hdigit =>
        cases hread
        exact Lexeme.number_start hdigit
    · split at hread
      · next hquote =>
          cases hread
          obtain rfl := beq_iff_eq.1 hquote
          exact ⟨rfl, by simp, by decide, fun h => absurd h (by decide)⟩
      · exact Lexeme.mark?_start hread

/-- A lexeme that is read from its own text is read in the same way in front of every character
before which it ends. -/
theorem lexeme?_append {lexeme : Lexeme} (hwhole : lexeme.Whole) {rest : List Char}
    (hrest : ∀ c ∈ rest.head?, lexeme.endsBefore c) :
    lexeme? (lexeme.text ++ rest) = some lexeme := by
  obtain ⟨hread, hclosed⟩ := hwhole
  obtain ⟨kind, text⟩ := lexeme
  simp only at hread ⊢
  rcases text with _ | ⟨c, cs⟩
  · cases hread
  simp only [lexeme?, List.cons_append] at hread ⊢
  -- The first character tells what is read: a word, a number, a string or a mark.
  by_cases hstart : Lexeme.isWordStart c
  · rw [if_pos hstart] at hread ⊢
    have hword := Option.some.inj hread
    have hnext : ∀ d ∈ rest.head?, Lexeme.isWordPart d = false := by
      intro d hd
      have hends := hrest d hd
      rw [← hword] at hends
      simpa [Lexeme.endsBefore, Lexeme.word, TokenKind.isWord_ofWord] using hends
    rw [← List.cons_append, Lexeme.word_append (by rw [hword]) hnext, hword]
  rw [if_neg hstart] at hread ⊢
  by_cases hdigit : c.isDigit
  · rw [if_pos hdigit] at hread ⊢
    have hnumber := Option.some.inj hread
    rw [← List.cons_append, Lexeme.number_append (by rw [hnumber]) (by rwa [hnumber]), hnumber]
  rw [if_neg hdigit] at hread ⊢
  by_cases hquote : c == '"'
  · rw [if_pos hquote] at hread ⊢
    have hstring := Option.some.inj hread
    have hterminated : cs.contains '"' := by
      rw [← hstring] at hclosed
      simp only [Lexeme.mk.injEq, List.cons.injEq, true_and] at hstring
      simpa [Lexeme.isUnterminated, hstring.2] using hclosed
    rw [Lexeme.throughQuote_append hterminated, hstring]
  rw [if_neg hquote] at hread ⊢
  exact Lexeme.mark?_append hread hrest

/-- A whole lexeme has a first character. -/
theorem Lexeme.Whole.start {lexeme : Lexeme} (hwhole : lexeme.Whole) :
    ∃ c, lexeme.StartsWith c := by
  have hread := hwhole.read
  rcases htext : lexeme.text with _ | ⟨c, cs⟩
  · rw [htext] at hread
    cases hread
  · rw [htext] at hread
    exact ⟨c, lexeme?_start hread⟩

/-- A text without quotes in it is read up to the quote behind it. -/
theorem Lexeme.throughQuote_of_unquoted {text : List Char} (hunquoted : '"' ∉ text) :
    throughQuote (text ++ ['"']) = text ++ ['"'] := by
  induction text with
  | nil => rfl
  | cons c cs ih =>
      rw [List.mem_cons, not_or] at hunquoted
      obtain ⟨hc, hcs⟩ := hunquoted
      have hne : (c == '"') = false := beq_eq_false_iff_ne.2 (Ne.symm hc)
      simp only [List.cons_append, throughQuote, hne, ih hcs]
      rfl

/-- A quoted text without quotes in it stands for itself. -/
theorem Lexeme.value_quoted {text : List Char} (hunquoted : '"' ∉ text) :
    Lexeme.value ⟨.stringLiteral, '"' :: (text ++ ['"'])⟩ = text := by
  have hrun : ∀ c ∈ text, (c != '"') = true := by
    intro c hc
    rw [bne_iff_ne]
    rintro rfl
    exact hunquoted hc
  have hclosing : ∀ c ∈ ['"'].head?, (c != '"') = false := by
    rintro c ⟨⟩
    decide
  exact (takeWhile_append_of_head hrun hclosing).1

/-- A quoted text without quotes in it is one lexeme. -/
theorem Lexeme.whole_quoted {text : List Char} (hunquoted : '"' ∉ text) :
    Lexeme.Whole ⟨.stringLiteral, '"' :: (text ++ ['"'])⟩ where
  read := by
    simp only [lexeme?, throughQuote_of_unquoted hunquoted]
    rfl
  closed := by simp [isUnterminated]

/-- A lexeme in front of a text starts with no blank and with no comment. -/
theorem triviaLength_append {lexeme : Lexeme} (hwhole : lexeme.Whole) {rest : List Char}
    (hrest : ∀ c ∈ rest.head?, lexeme.endsBefore c) :
    triviaLength false (lexeme.text ++ rest) = 0 := by
  obtain ⟨c, hstart⟩ := hwhole.start
  obtain ⟨cs, htext⟩ := List.head?_eq_some_iff.1 hstart.head
  -- Two slashes start a comment, but the operator does not end in front of a slash.
  have hslash : ¬(c = '/' ∧ (cs ++ rest).head? = some '/') := by
    rintro ⟨rfl, hnext⟩
    have hlexeme := hstart.slash rfl
    rw [hlexeme] at htext hrest
    obtain rfl : [] = cs := (List.cons.inj htext).2
    exact absurd (hrest '/' hnext) (by decide)
  simp only [htext, List.cons_append, triviaLength, hstart.blank]
  rw [if_neg (by decide), if_neg (by simpa using hslash)]

/-- Blanks in front of a text are skipped. -/
theorem triviaLength_blanks {blanks : List Char} (hblanks : ∀ c ∈ blanks, Text.isBlank c)
    (rest : List Char) :
    triviaLength false (blanks ++ rest) = blanks.length + triviaLength false rest := by
  induction blanks with
  | nil => simp
  | cons c blanks ih =>
      have hc := hblanks c (by simp)
      have hmore := ih fun d hd => hblanks d (by simp [hd])
      simp only [List.cons_append, triviaLength, hc, if_true, hmore, List.length_cons]
      omega

end Quill
