import SpokenArithmetic.Lexeme.Compound
import SpokenArithmetic.Token.Promotion

/-!
# Transcripts

A transcript is what is known of a sentence before its structure is looked at:
the tokens, the names among them, and the stretches of text that no rule
knows.  Together the tokens and the unrecognized stretches rebuild the
sentence up to its blanks, unless a stretch lies inside a compound numeral.
-/

namespace SpokenArithmetic

/-- A stretch of a sentence that no rule knows, without the blanks around it. -/
structure Unrecognized where
  text : String
  span : Span
deriving DecidableEq, Repr

/-- What a text between two lexemes, or behind the last one, leaves to report.
The text begins at the position `start`. -/
def Unrecognized.ofGap (start : Nat) (gap : List Char) : List Unrecognized :=
  let text := Text.trim gap
  let first := start + Text.width (gap.takeWhile Text.isBlank)
  if text.isEmpty then [] else [⟨String.ofList text, ⟨first, first + Text.width text⟩⟩]

/-- The unrecognized stretches of a scan that begins at the position `start`. -/
def Unrecognized.ofScan (start : Nat) : List Lexeme → List Char → List Unrecognized
  | [], trail => ofGap start trail
  | lexeme :: rest, trail =>
      ofGap start lexeme.lead ++ ofScan (start + Text.width lexeme.chars) rest trail

/-- The tokens of lexemes that begin at the position `start`. -/
def Token.ofLexemes (start : Nat) : List Lexeme → List Token
  | [] => []
  | lexeme :: rest =>
      let first := start + Text.width lexeme.lead
      let stop := first + Text.width lexeme.text
      ⟨lexeme.kind, lexeme.normalized, String.ofList lexeme.text, ⟨first, stop⟩⟩ ::
        ofLexemes stop rest

/-- Each token comes from a lexeme, and only its place is its own. -/
theorem Token.exists_of_mem_ofLexemes {lexemes : List Lexeme} {start : Nat} {token : Token}
    (h : token ∈ ofLexemes start lexemes) :
    ∃ lexeme ∈ lexemes, token.kind = lexeme.kind ∧ token.normalized = lexeme.normalized ∧
      token.written = String.ofList lexeme.text := by
  induction lexemes generalizing start with
  | nil => cases h
  | cons lexeme rest ih =>
      rcases List.mem_cons.mp h with rfl | h
      · exact ⟨lexeme, List.mem_cons_self .., rfl, rfl, rfl⟩
      · obtain ⟨other, hmem, hother⟩ := ih h
        exact ⟨other, List.mem_cons_of_mem _ hmem, hother⟩

/-- What is known of a sentence from its words alone. -/
structure Transcript where
  /-- The recognized pieces, in the order of the sentence. -/
  tokens : List Token
  /-- The names among the tokens as they were written, with repetitions. -/
  identifiers : List String
  source : String
  /-- The stretches that no rule knows, in the order of the sentence. -/
  unrecognized : List Unrecognized
deriving DecidableEq, Repr

namespace Transcript

/-- The transcript of a sentence. -/
def ofSource (source : String) : Transcript :=
  let scan := Scan.ofText source.toList
  let tokens := Token.promoteKeywords (Token.ofLexemes 0 (Lexeme.mergeCompounds scan.lexemes))
  { tokens := tokens
    identifiers := (tokens.filter (·.kind == .identifier)).map (·.written)
    source := source
    unrecognized := Unrecognized.ofScan 0 scan.lexemes scan.trail }

/-- Whether everything but the blanks was recognized. -/
def isClean (transcript : Transcript) : Bool :=
  transcript.unrecognized.isEmpty

/-- The unrecognized stretches without their places. -/
def unrecognizedTexts (transcript : Transcript) : List String :=
  transcript.unrecognized.map (·.text)

/-- The texts of a transcript, each with the position where it begins, those
of the tokens first. -/
def pieces (transcript : Transcript) : List (Nat × String) :=
  transcript.tokens.map (fun token => (token.span.start, token.written)) ++
    transcript.unrecognized.map (fun stretch => (stretch.span.start, stretch.text))

/-- The sentence put together again from its pieces in the order of their
positions, with one space between two of them. -/
def reconstruct (transcript : Transcript) : String :=
  let ordered := transcript.pieces.mergeSort fun piece other => piece.1 ≤ other.1
  " ".intercalate (ordered.map (·.2))

@[simp] theorem source_ofSource (source : String) : (ofSource source).source = source := rfl

end Transcript
end SpokenArithmetic
