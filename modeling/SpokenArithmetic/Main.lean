import SpokenArithmetic.Outcome

/-!
# Command line

`spoken-arithmetic [--file] [--tokens] [--skip-semantics] [--] CONTENTS`
analyses the sentence `CONTENTS`, or with `--file` the sentences on the lines
of the file of that name.
-/

namespace SpokenArithmetic
namespace Main

/-- What the command line asks for. -/
structure Arguments where
  file : Bool
  options : Options
  contents : Option String

/-- The arguments before any of them is read. -/
def noArguments : Arguments := ⟨false, ⟨false, false⟩, none⟩

/-- The arguments with one more text, of which there is at most one. -/
def Arguments.addContents? (arguments : Arguments) (text : String) : Option Arguments :=
  match arguments.contents with
  | none => some { arguments with contents := some text }
  | some _ => none

/-- The arguments in a list of words.  Behind `--` every word is a text. -/
def readArguments? (arguments : Arguments) : List String → Option Arguments
  | [] => some arguments
  | "--" :: texts => texts.foldlM Arguments.addContents? arguments
  | word :: rest =>
      if word = "--file" ∨ word = "-f" then
        readArguments? { arguments with file := true } rest
      else if word = "--tokens" ∨ word = "-t" then
        readArguments? { arguments with options.listTokens := true } rest
      else if word = "--skip-semantics" ∨ word = "-s" then
        readArguments? { arguments with options.skipSemantics := true } rest
      else if word.startsWith "-" && word != "-" then
        none
      else
        (arguments.addContents? word).bind fun arguments => readArguments? arguments rest

/-- The bytes of a file, if it can be read. -/
def bytesOf? (name : String) : IO (Option ByteArray) := do
  try
    return some (← IO.FS.readBinFile name)
  catch _ =>
    return none

/-- The outcome for a sentence, or for the file that is named in its place. -/
def run (arguments : Arguments) (contents : String) : IO Outcome := do
  if arguments.file then
    return Outcome.ofFile arguments.options contents (← bytesOf? contents)
  else
    return Outcome.ofSentences arguments.options [contents]

/-- How the program is called. -/
def usage : String :=
  "spoken-arithmetic [--file] [--tokens] [--skip-semantics] [--] CONTENTS"

end Main
end SpokenArithmetic

/-- Runs the analysis that the command line asks for. -/
def main (words : List String) : IO UInt32 := do
  let arguments := SpokenArithmetic.Main.readArguments? SpokenArithmetic.Main.noArguments words
  match arguments, arguments.bind (·.contents) with
  | some arguments, some contents =>
      let outcome ← SpokenArithmetic.Main.run arguments contents
      IO.eprint outcome.stderr
      IO.print outcome.stdout
      return outcome.exitStatus.toUInt32
  | _, _ =>
      IO.eprintln SpokenArithmetic.Main.usage
      return 2
