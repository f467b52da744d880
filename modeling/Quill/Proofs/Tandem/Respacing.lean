import Quill.Proofs.Layout
import Quill.Proofs.Parsing.Agreement
import Quill.Proofs.Tandem.Grammar
import Quill.Proofs.Tandem.Streams

/-!
# Layout means nothing

The parser decides by the kinds and values of tokens only.  Two texts with the same tokens, whatever
blanks, line breaks and comments stand between them, are read in lockstep up to the first problem;
only then does the parser ask where a line starts.  So both texts are read without a problem or
neither is, and the first problems are the same at the same token.
-/

namespace Quill

/-- A problem, and the index of the token that is blamed for it. -/
abbrev Complaint := Problem × Nat

/-- The diagnostic is a given complaint about the tokens of a stream. -/
def Diagnostic.Is (stream : TokenStream) (complaint : Complaint) (diagnostic : Diagnostic) : Prop :=
  ∃ token, stream.tokens[complaint.2]? = some token ∧ diagnostic = .of complaint.1 token.span

/-- The run has recorded a problem, and the first one is a given complaint. -/
def Parser.Complained (stream : TokenStream) (complaint : Complaint) (parser : Parser) : Prop :=
  ∃ first, parser.recorded.head? = some first ∧ first.Is stream complaint

/-- What a run has recorded first stays the first. -/
theorem Parser.Complained.mono {stream : TokenStream} {complaint : Complaint}
    {parser next : Parser} (h : parser.Complained stream complaint)
    (hle : parser.recorded <+: next.recorded) : next.Complained stream complaint := by
  obtain ⟨first, hfirst, his⟩ := h
  obtain ⟨more, hmore⟩ := hle
  refine ⟨first, ?_, his⟩
  rw [← hmore, List.head?_append, hfirst, Option.some_or]

/-- A run that has recorded its first problem. -/
def Astray.complained (stream : TokenStream) (complaint : Complaint) : Astray where
  lost := Parser.Complained stream complaint
  blamed _ := True
  advance h := h.mono (List.prefix_append _ _)
  blames _ _ := trivial
  recover before h _ :=
    (h.mono (Parser.recorded_isPrefix_record _ _)).mono (Parser.recorded_isPrefix_recover before _)

/-- Tokens that say the same are the same but for their places. -/
theorem Token.matched_nowhere {token token' : Token} (h : token.content = token'.content) :
    Pairing.Matched ⟨.nowhere, .nowhere⟩ token token' := by
  obtain ⟨hkind, hvalue⟩ := Prod.mk.inj h
  change token.moved .nowhere = token'.moved .nowhere
  rw [moved, moved, hkind, hvalue]
  rfl

/-- The token at a place of a stream, in the list of all its tokens. -/
theorem TokenStream.getElem?_tokens (stream : TokenStream) (place : Nat) :
    stream.tokens[min place stream.scans.length]? = some (stream.tokenAt place) := by
  rw [tokens, tokenAt]
  rcases Nat.lt_or_ge place stream.scans.length with hlt | hge
  · rw [Nat.min_eq_left (Nat.le_of_lt hlt), List.getElem?_append_left (by simpa using hlt)]
    simp [hlt]
  · rw [Nat.min_eq_right hge, List.getElem?_append_right (by simp)]
    simp [hge]

/-- Two streams without problems whose tokens say the same. -/
structure Respaced (stream stream' : TokenStream) : Prop where
  contents : stream.tokens.map (·.content) = stream'.tokens.map (·.content)
  quiet : stream.Quiet
  quiet' : stream'.Quiet
  ends : stream.Ends
  ends' : stream'.Ends

namespace Respaced

variable {stream stream' : TokenStream} (h : Respaced stream stream')

include h

theorem length_eq : stream.scans.length = stream'.scans.length := by
  simpa [TokenStream.tokens] using congrArg List.length h.contents

theorem content_tokenAt (place : Nat) :
    (stream.tokenAt place).content = (stream'.tokenAt place).content := by
  have hplace := congrArg (·[min place stream.scans.length]?) h.contents
  simp only [List.getElem?_map] at hplace
  rw [stream.getElem?_tokens, h.length_eq, stream'.getElem?_tokens] at hplace
  exact Option.some.inj hplace

end Respaced

/-- Runs over texts with the same tokens are in lockstep until both have recorded a problem. -/
def Tandem.respaced {stream stream' : TokenStream} (h : Respaced stream stream') :
    Tandem ⟨.nowhere, .nowhere⟩ where
  Mark := Complaint
  left := .complained stream
  right := .complained stream'
  alone _ := rfl
  abreast := Parser.Lockstep stream stream'
  same diagnostic diagnostic' :=
    ∃ complaint, diagnostic.Is stream complaint ∧ diagnostic'.Is stream' complaint
  sound habreast := ⟨habreast.on.sound h.ends, habreast.on'.sound h.ends'⟩
  source habreast := habreast.source
  look {parser parser'} habreast := by
    left
    refine ⟨?_, ?_, fun problem => ?_⟩
    · apply Token.matched_nowhere
      rw [habreast.on.current, habreast.on'.current, habreast.place]
      exact h.content_tokenAt _
    · exact habreast.advance h.quiet h.quiet'
    · refine ⟨(problem, min parser.consumed stream.scans.length), ⟨_, ?_, rfl⟩, ⟨_, ?_, rfl⟩⟩
      · rw [habreast.on.current]
        exact stream.getElem?_tokens _
      · rw [habreast.on'.current, habreast.place, h.length_eq]
        exact stream'.getElem?_tokens _
  recover {parser parser' next next' diagnostic diagnostic'} _ hnext _ hsame := by
    right
    obtain ⟨complaint, hfirst, hfirst'⟩ := hsame
    have hnoted : (next.record diagnostic).Complained stream complaint :=
      ⟨diagnostic, by rw [Parser.record, hnext.clear]; rfl, hfirst⟩
    have hnoted' : (next'.record diagnostic').Complained stream' complaint :=
      ⟨diagnostic', by rw [Parser.record, hnext.clear']; rfl, hfirst'⟩
    refine ⟨complaint, ?_, ?_⟩
    · exact hnoted.mono (Parser.recorded_isPrefix_recover _ _)
    · exact hnoted'.mono (Parser.recorded_isPrefix_recover _ _)

/-- Layout means nothing.  If two texts are scanned without a problem and their tokens have the same
kinds and values, then both are parsed without a problem or neither is.  In the first case the
statements are the same but for their places; in the second one the first problems are the same,
and they blame the tokens with the same index. -/
theorem parse_of_same_tokens (file file' text text' : String) (source : Nat)
    (hquiet : (TokenStream.ofText file text).diagnostics = [])
    (hquiet' : (TokenStream.ofText file' text').diagnostics = [])
    (hsame : (TokenStream.ofText file text).tokens.map (·.content) =
      (TokenStream.ofText file' text').tokens.map (·.content)) :
    ((parse file text source).diagnostics = [] ↔ (parse file' text' source).diagnostics = []) ∧
    ((parse file text source).diagnostics = [] →
      (parse file text source).statements.map (·.moved .nowhere) =
        (parse file' text' source).statements.map (·.moved .nowhere)) ∧
    ∀ first first', (parse file text source).diagnostics.head? = some first →
      (parse file' text' source).diagnostics.head? = some first' →
      first.problem = first'.problem ∧ first.phase = first'.phase ∧
      ∃ (index : Nat) (token token' : Token),
        (TokenStream.ofText file text).tokens[index]? = some token ∧
        (TokenStream.ofText file' text').tokens[index]? = some token' ∧
        first.span = token.span ∧ first'.span = token'.span := by
  have hrespaced : Respaced (.ofText file text) (.ofText file' text') :=
    { contents := hsame
      quiet := TokenStream.quiet_of_diagnostics hquiet
      quiet' := TokenStream.quiet_of_diagnostics hquiet'
      ends := TokenStream.ofText_ends file text
      ends' := TokenStream.ofText_ends file' text' }
  have hbound : (Parser.ofText file' text' source).remaining =
      (Parser.ofText file text source).remaining := hrespaced.length_eq.symm
  have hstep : (Tandem.respaced hrespaced).Step _ _ := .statements Grammar.standard_stopsAtEnd
    ((Parser.ofText file text source).remaining + 1)
  have hruns := hstep.both (Parser.ofText file text source) (Parser.ofText file' text' source)
    (.start hrespaced.quiet hrespaced.quiet' source)
  rw [parse, parse, hbound]
  -- How the two runs came to their results does not matter from here on.
  rw [Parse.always, Parse.always] at hruns
  generalize (Parser.ofText file text source).statements .standard
    ((Parser.ofText file text source).remaining + 1) = ended at hruns ⊢
  generalize (Parser.ofText file' text' source).statements .standard
    ((Parser.ofText file text source).remaining + 1) = ended' at hruns ⊢
  rcases hruns with hmeet | ⟨complaint, ⟨first, hfirst, his⟩, first', hfirst', his'⟩
  · cases hmeet with
    | ok hmatched habreast =>
        refine ⟨iff_of_true habreast.clear habreast.clear', fun _ => hmatched, ?_⟩
        intro first _ hfirst
        cases (congrArg List.head? habreast.clear).symm.trans hfirst
  · have hsome := List.ne_nil_of_mem (List.mem_of_head? hfirst)
    have hsome' := List.ne_nil_of_mem (List.mem_of_head? hfirst')
    refine ⟨iff_of_false hsome hsome', fun hnil => absurd hnil hsome, ?_⟩
    intro found found' hfound hfound'
    obtain rfl : first = found := Option.some.inj (hfirst.symm.trans hfound)
    obtain rfl : first' = found' := Option.some.inj (hfirst'.symm.trans hfound')
    obtain ⟨token, htoken, rfl⟩ := his
    obtain ⟨token', htoken', rfl⟩ := his'
    exact ⟨rfl, rfl, complaint.2, token, token', htoken, htoken', rfl, rfl⟩

/-- The name after `let` is missing in two layouts of the same tokens.  What comes after the problem
is read in the first layout only, but the problem is the same. -/
theorem missing_name_of_same_tokens :
    let texts := ("let = 1 // no name\nlet x = 2", "let=1 let x=2")
    (TokenStream.ofText "a" texts.1).diagnostics = [] ∧
    (TokenStream.ofText "b" texts.2).diagnostics = [] ∧
    (TokenStream.ofText "a" texts.1).tokens.map (·.content) =
      (TokenStream.ofText "b" texts.2).tokens.map (·.content) ∧
    ∀ first first', (parse "a" texts.1 0).diagnostics.head? = some first →
      (parse "b" texts.2 0).diagnostics.head? = some first' → first.problem = first'.problem := by
  refine ⟨by decide +kernel, by decide +kernel, by decide +kernel, ?_⟩
  intro first first' hfirst hfirst'
  exact ((parse_of_same_tokens "a" "b" "let = 1 // no name\nlet x = 2" "let=1 let x=2" 0
    (by decide +kernel) (by decide +kernel) (by decide +kernel)).2.2 first first' hfirst
    hfirst').1

end Quill
