import SpokenArithmetic.Analysis

/-!
# Reports

The text that is shown for the analysis of a sentence.  It names the sentence,
lists the tokens if that is asked for, shows the trees or the fault of
structure, and shows the faults of meaning unless they are to be left out.
-/

namespace SpokenArithmetic

/-- What a report shows. -/
structure Options where
  /-- Whether the tokens are listed. -/
  listTokens : Bool
  /-- Whether the meaning is left out. -/
  skipSemantics : Bool
deriving DecidableEq, Repr

namespace Report

/-- One token in the list of tokens. -/
def tokenLine (token : Token) : String :=
  "  " ++ token.kind.name ++ ": '" ++ token.written ++ "' (valor interno: '" ++
    token.normalized ++ "')\n"

/-- The list of tokens. -/
def lexicalPart (tokens : List Token) : String :=
  "ANÁLISIS LÉXICO:\nTokens reconocidos:\n" ++ String.join (tokens.map tokenLine) ++ "\n"

/-- The tree of the statement with the given number. -/
def statementLines (tree : Tree) (number : Nat) : String :=
  "\nInstrucción " ++ toString number ++ ":\n  Árbol de expresión: " ++ tree.render ++ "\n"

/-- The trees of all statements, numbered from one, or the fault of structure. -/
def syntacticPart (structured : Except ParseError (List Tree)) : String :=
  "ANÁLISIS SINTÁCTICO:\n" ++
    match structured with
    | .ok trees =>
        "La expresión es sintácticamente válida\n" ++
          String.join ((trees.zipIdx 1).map fun (tree, number) => statementLines tree number)
    | .error fault =>
        "Se encontró un error sintáctico:\n" ++
          "  Descripción: " ++ fault.message ++ "\n" ++
          "  Tipo de error: " ++ fault.category ++ "\n" ++
          "  Sugerencia: " ++ fault.suggestion ++ "\n"

/-- The faults of meaning. -/
def semanticPart (diagnostics : List Diagnostic) : String :=
  "\nANÁLISIS SEMÁNTICO:\n" ++
    if diagnostics.isEmpty then
      "La expresión es semánticamente válida.\n"
    else
      "Se encontraron errores semánticos:\n" ++
        String.join (diagnostics.map fun diagnostic => "- " ++ diagnostic.message ++ "\n")

/-- The report of one sentence. -/
def render (options : Options) (analysis : Analysis) : String :=
  "ANÁLISIS DE LA EXPRESIÓN: " ++ analysis.transcript.source ++ "\n\n" ++
    (if options.listTokens then lexicalPart analysis.transcript.tokens else "") ++
    syntacticPart analysis.structured ++
    (if options.skipSemantics then "" else semanticPart analysis.diagnostics) ++ "\n"

end Report
end SpokenArithmetic
