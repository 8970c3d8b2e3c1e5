/-!
# Faults of meaning

What can be wrong with the use of names and operators in a sentence, with the
message for each fault.
-/

namespace SpokenArithmetic

/-- A fault of meaning. -/
inductive Diagnostic where
  /-- A name is read that is not defined. -/
  | undefinedVariable (name : String)
  /-- An operand stands where the operators before it ask for none. -/
  | unexpectedOperand (text : String)
  /-- The last operator of a segment is left without all operands. -/
  | missingOperands (operator : String)
  /-- Nothing stands behind the sign of assignment. -/
  | missingExpression (name : String)
  /-- A sign of assignment stands inside a segment. -/
  | unexpectedToken (text : String)
deriving DecidableEq, Repr

namespace Diagnostic

/-- The name or text that a fault is about. -/
def payload : Diagnostic → String
  | undefinedVariable name => name
  | unexpectedOperand text => text
  | missingOperands operator => operator
  | missingExpression name => name
  | unexpectedToken text => text

/-- The message for a fault. -/
def message : Diagnostic → String
  | undefinedVariable name => "Error semántico: La variable '" ++ name ++ "' no ha sido definida."
  | unexpectedOperand text => "Error semántico: Operando inesperado '" ++ text ++ "'."
  | missingOperands operator =>
      "Error semántico: El operador '" ++ operator ++ "' espera más operandos."
  | missingExpression name =>
      "Error semántico: Falta una expresión después de la asignación a '" ++ name ++ "'."
  | unexpectedToken text => "Error semántico: Token inesperado '" ++ text ++ "'."

/-- Whether a fault depends on which names are defined. -/
def isUndefinedVariable : Diagnostic → Bool
  | undefinedVariable _ => true
  | _ => false

end Diagnostic
end SpokenArithmetic
