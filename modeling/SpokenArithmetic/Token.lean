import SpokenArithmetic.Operator
import SpokenArithmetic.Numeral

/-!
# Tokens

A token is a recognized piece of a sentence.  It keeps the text as it was
written, the position of that text, its kind, and a canonical text that no
longer depends on spelling: digits for a number, the symbol of an operator, and
one connector word for all connectors of a kind.
-/

namespace SpokenArithmetic

/-- What a piece of a sentence is.  The two kinds of connectors are filler
words that carry no meaning of their own. -/
inductive Kind where
  | number
  | identifier
  | operator (op : Operator)
  | sequence
  | preposition
  | comma
  | assign
deriving DecidableEq, Repr

namespace Kind

/-- The operator that a kind stands for.  The sign of assignment is none. -/
def operator? : Kind → Option Operator
  | operator op => some op
  | _ => none

/-- Whether a kind is one of the filler words. -/
def isConnector : Kind → Bool
  | sequence | preposition => true
  | _ => false

/-- Whether a kind stands for an operand by itself. -/
def isOperand : Kind → Bool
  | number | identifier => true
  | _ => false

/-- The name of a kind in a list of tokens. -/
def name : Kind → String
  | number => "Number"
  | identifier => "Identifier"
  | operator op => "Operator" ++ op.name
  | sequence => "SequenceConnector"
  | preposition => "PrepositionConnector"
  | comma => "Comma"
  | assign => "OperatorAssign"

/-- The canonical text of a piece of this kind that is written as `text`. -/
def canonical (kind : Kind) (text : String) : String :=
  match kind with
  | number => Numeral.normalize text
  | identifier => text
  | operator op => op.symbol
  | sequence => "y"
  | preposition => "con"
  | comma => ","
  | assign => "="

@[simp] theorem operator?_operator (op : Operator) : (operator op).operator? = some op := rfl

theorem operator?_eq_some_iff (kind : Kind) (op : Operator) :
    kind.operator? = some op ↔ kind = operator op := by
  cases kind <;> simp [operator?]

end Kind

/-- A range of byte positions in a sentence, without its end. -/
structure Span where
  start : Nat
  stop : Nat
deriving DecidableEq, Repr

/-- A recognized piece of a sentence. -/
structure Token where
  kind : Kind
  /-- The text that stands for every spelling of the token. -/
  normalized : String
  /-- The text as it was written. -/
  written : String
  span : Span
deriving DecidableEq, Repr

namespace Token

/-- The operator that a token stands for. -/
def operator? (token : Token) : Option Operator :=
  token.kind.operator?

/-- Whether a token is one of the filler words. -/
def isConnector (token : Token) : Bool :=
  token.kind.isConnector

end Token
end SpokenArithmetic
