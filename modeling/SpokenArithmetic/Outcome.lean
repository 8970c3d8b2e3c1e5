import SpokenArithmetic.Report
import SpokenArithmetic.Text.Quoted

/-!
# Outcomes

What a run over one sentence or over a file of sentences writes and whether it
succeeds.  The reports go to the standard output, and the texts that no rule
knows go to the standard error.  A run succeeds if every sentence is valid,
where the meaning counts only if it is reported.
-/

namespace SpokenArithmetic

/-- What a run leaves behind. -/
@[ext] structure Outcome where
  success : Bool
  stdout : String
  stderr : String
deriving DecidableEq, Repr

namespace Outcome

/-- The outcome of doing nothing. -/
def empty : Outcome := ⟨true, "", ""⟩

/-- One run after another. -/
instance : Append Outcome where
  append first second :=
    { success := first.success && second.success
      stdout := first.stdout ++ second.stdout
      stderr := first.stderr ++ second.stderr }

/-- The exit status of a run. -/
def exitStatus (outcome : Outcome) : Nat :=
  if outcome.success then 0 else 1

/-- The outcome for one analysed sentence. -/
def ofAnalysis (options : Options) (analysis : Analysis) : Outcome where
  success := if options.skipSemantics then analysis.isStructured else analysis.isValid
  stdout := Report.render options analysis
  stderr :=
    if analysis.transcript.isClean then
      ""
    else
      "Elementos no reconocidos: " ++ Text.quoteList analysis.transcript.unrecognizedTexts ++ "\n"

/-- The outcome for sentences that share one scope, which is empty before the
first of them. -/
def ofSentences (options : Options) (sentences : List String) : Outcome :=
  ((analyzeAll sentences Scope.empty).1.map (ofAnalysis options)).foldr (· ++ ·) empty

/-- The sentences of a text, one on each line, without the blanks around them
and without the lines that are blank. -/
def sentencesOf (text : String) : List String :=
  (((text.toList.splitOn '\n').map Text.trim).filter (!·.isEmpty)).map String.ofList

/-- The outcome for a file that cannot be read as text. -/
def unreadable (name : String) : Outcome where
  success := false
  stdout := ""
  stderr := "No se pudo leer el archivo '" ++ name ++ "'. ¿Existe el archivo?\n"

/-- The outcome for a file with the given bytes, if it could be read. -/
def ofFile (options : Options) (name : String) (bytes : Option ByteArray) : Outcome :=
  match bytes.bind String.fromUTF8? with
  | some text => ofSentences options (sentencesOf text)
  | none => unreadable name

@[simp] theorem success_append (first second : Outcome) :
    (first ++ second).success = (first.success && second.success) := rfl

@[simp] theorem stdout_append (first second : Outcome) :
    (first ++ second).stdout = first.stdout ++ second.stdout := rfl

@[simp] theorem stderr_append (first second : Outcome) :
    (first ++ second).stderr = first.stderr ++ second.stderr := rfl

@[simp] theorem append_empty (outcome : Outcome) : outcome ++ empty = outcome := by
  ext <;> simp [empty]

end Outcome
end SpokenArithmetic
