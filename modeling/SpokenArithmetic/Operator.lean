/-!
# Operators

The six arithmetic operations that a sentence can name.  An operator alone
decides the symbol that stands for it in a printed tree and the number of
operands that it asks for when it is written in front of them.
-/

namespace SpokenArithmetic

/-- An arithmetic operation. -/
inductive Operator where
  | add
  | subtract
  | multiply
  | divide
  | power
  | root
deriving DecidableEq, Repr

namespace Operator

/-- All operators. -/
def all : List Operator := [add, subtract, multiply, divide, power, root]

/-- The symbol of an operator in a printed tree. -/
def symbol : Operator → String
  | add => "+"
  | subtract => "-"
  | multiply => "*"
  | divide => "/"
  | power => "^"
  | root => "√"

/-- The number of operands that follow an operator written in front of them.
Only the root takes one. -/
def arity : Operator → Nat
  | root => 1
  | add | subtract | multiply | divide | power => 2

/-- The name of an operator in a list of tokens. -/
def name : Operator → String
  | add => "Add"
  | subtract => "Subtract"
  | multiply => "Multiply"
  | divide => "Divide"
  | power => "Power"
  | root => "Root"

theorem arity_eq_one_iff (op : Operator) : op.arity = 1 ↔ op = root := by
  cases op <;> decide

theorem arity_eq_two_iff (op : Operator) : op.arity = 2 ↔ op ≠ root := by
  cases op <;> decide

/-- No two operators share a symbol. -/
theorem symbol_injective {op op' : Operator} (h : op.symbol = op'.symbol) : op = op' := by
  revert h
  cases op <;> cases op' <;> decide

end Operator
end SpokenArithmetic
