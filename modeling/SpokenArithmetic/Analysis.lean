import SpokenArithmetic.Reading.Sentence
import SpokenArithmetic.Transcript
import SpokenArithmetic.Validation

/-!
# Analysis of a sentence

Everything that is found in one sentence: its transcript, its trees or its
first fault of structure, and its faults of meaning.  The structure and the
meaning are looked at apart from one another, both on the same tokens, so that
a sentence with a fault of structure is still validated and still defines the
names that it assigns to.
-/

namespace SpokenArithmetic

/-- What is found in a sentence. -/
structure Analysis where
  transcript : Transcript
  structured : Except ParseError (List Tree)
  diagnostics : List Diagnostic

namespace Analysis

/-- Whether a sentence has a structure. -/
def isStructured (analysis : Analysis) : Bool :=
  analysis.structured.isOk

/-- Whether nothing is wrong with the structure or the meaning of a sentence.
Unrecognized text does not count against it. -/
def isValid (analysis : Analysis) : Bool :=
  analysis.isStructured && analysis.diagnostics.isEmpty

end Analysis

/-- The analysis of a sentence, and the scope behind it. -/
def analyze (source : String) (scope : Scope) : Analysis × Scope :=
  let transcript := Transcript.ofSource source
  let verdict := validate transcript.tokens scope
  (⟨transcript, parse transcript.tokens, verdict.diagnostics⟩, verdict.scope)

/-- The analyses of several sentences that share one scope. -/
def analyzeAll (sources : List String) (scope : Scope) : List Analysis × Scope :=
  match sources with
  | [] => ([], scope)
  | source :: rest =>
      let (first, scope) := analyze source scope
      let (others, scope) := analyzeAll rest scope
      (first :: others, scope)

end SpokenArithmetic
