/-!
# Faults of structure

The ways in which a sentence can fail to have a structure, with what a reader
of the sentence is told about each.
-/

namespace SpokenArithmetic

/-- A fault of structure.  A position counts tokens from the start of the
sentence, and `found` is the text of the token there. -/
inductive ParseError where
  /-- A token stands where a number, a name or an operator has to stand. -/
  | expectedTerm (position : Nat) (found : String)
  /-- The sentence ends where a number, a name or an operator has to stand. -/
  | unexpectedEndOfInput
  /-- A token stands where a comma or the end has to stand. -/
  | expectedSeparator (position : Nat) (found : String)
deriving DecidableEq, Repr

namespace ParseError

/-- The position of the token at fault. -/
def position? : ParseError → Option Nat
  | expectedTerm position _ => some position
  | unexpectedEndOfInput => none
  | expectedSeparator position _ => some position

/-- The text of the token at fault. -/
def found? : ParseError → Option String
  | expectedTerm _ found => some found
  | unexpectedEndOfInput => none
  | expectedSeparator _ found => some found

/-- What is wrong. -/
def message : ParseError → String
  | expectedTerm position found =>
      "Se esperaba un número, identificador u operador en la posición " ++ toString position ++
        " (se encontró '" ++ found ++ "')"
  | unexpectedEndOfInput =>
      "Se esperaba un número, identificador u operador al final de la entrada"
  | expectedSeparator position found =>
      "Se esperaba una coma o fin de entrada en la posición " ++ toString position ++
        " (se encontró '" ++ found ++ "')"

/-- The class that all faults of structure belong to. -/
def category : ParseError → String
  | _ => "Error de sintaxis"

/-- What can be done about it. -/
def suggestion : ParseError → String
  | expectedSeparator _ _ => "Asegúrate de separar las instrucciones con comas"
  | expectedTerm _ _ | unexpectedEndOfInput =>
      "Verifica que la expresión esté correctamente formada"

end ParseError
end SpokenArithmetic
