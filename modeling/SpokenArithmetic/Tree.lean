import SpokenArithmetic.Operator

/-!
# Trees

The structure of one statement.  Leaves are numbers and names, inner nodes are
operators with one or two operands, and an assignment gives the value of a
tree to a name.  Trees are not evaluated.  They are printed in full
parentheses with each operator in front of its operands.
-/

namespace SpokenArithmetic

/-- The structure of a statement. -/
inductive Tree where
  /-- A number with the digits of its value, and the text it was written as. -/
  | number (value text : String)
  | identifier (name : String)
  | unary (op : Operator) (operand : Tree)
  | binary (op : Operator) (left right : Tree)
  | assignment (target : String) (value : Tree)
deriving DecidableEq, Repr

namespace Tree

/-- The printed form of a tree, which does not show how a number was written. -/
def render : Tree → String
  | .number value _ => value
  | .identifier name => name
  | .unary op operand => "(" ++ op.symbol ++ " " ++ operand.render ++ ")"
  | .binary op left right =>
      "(" ++ op.symbol ++ " " ++ left.render ++ " " ++ right.render ++ ")"
  | .assignment target value => target ++ " = " ++ value.render

/-- The numbers and names that a tree is built from, from left to right.  The
target of an assignment is not one of them. -/
def leaves : Tree → List Tree
  | .number value text => [.number value text]
  | .identifier name => [.identifier name]
  | .unary _ operand => operand.leaves
  | .binary _ left right => left.leaves ++ right.leaves
  | .assignment _ value => value.leaves

/-- The names that a tree reads, from left to right. -/
def names : Tree → List String
  | .number _ _ => []
  | .identifier name => [name]
  | .unary _ operand => operand.names
  | .binary _ left right => left.names ++ right.names
  | .assignment _ value => value.names

/-- The operators of the inner nodes of a tree, each in front of those in its
operands. -/
def operators : Tree → List Operator
  | .number _ _ => []
  | .identifier _ => []
  | .unary op operand => op :: operand.operators
  | .binary op left right => op :: (left.operators ++ right.operators)
  | .assignment _ value => value.operators

/-- The name that a statement assigns to. -/
def target? : Tree → Option String
  | .assignment target _ => some target
  | _ => none

/-- Whether a tree is a number or a name. -/
def isLeaf : Tree → Bool
  | .number _ _ | .identifier _ => true
  | _ => false

end Tree
end SpokenArithmetic
