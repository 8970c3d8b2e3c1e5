import SpokenArithmetic.ParseError
import SpokenArithmetic.Token
import SpokenArithmetic.Tree

/-!
# Reading a sentence

A sentence is a list of statements between commas.  A statement is an
assignment or an operation.  An operation is a term and the operators written
behind it, each with an operation to its right.  A term is a number, a name,
or an operator written in front of as many operations as its arity asks for.
Connectors may stand around operators and operands and are passed over.

Each reader takes tokens from the front of a list and leaves the others.  It
leaves fewer tokens than it was given, which is why reading comes to an end.
-/

namespace SpokenArithmetic

/-- What was read, and the tokens that are left. -/
structure Reading (α : Type) where
  value : α
  rest : List Token
deriving DecidableEq, Repr

/-- Why reading stopped.  A token at fault comes with the tokens behind it. -/
inductive Fault where
  | expectedTerm (found : Token) (rest : List Token)
  | unexpectedEndOfInput
  | expectedSeparator (found : Token) (rest : List Token)
deriving DecidableEq, Repr

namespace Fault

/-- The tokens behind the fault. -/
def rest : Fault → List Token
  | expectedTerm _ rest => rest
  | unexpectedEndOfInput => []
  | expectedSeparator _ rest => rest

/-- The fault as it is reported for a sentence of `size` tokens. -/
def locate (size : Nat) (fault : Fault) : ParseError :=
  -- All tokens but those behind the fault and the one at fault stand in front of it.
  let position := size - (fault.rest.length + 1)
  match fault with
  | expectedTerm found _ => .expectedTerm position found.written
  | unexpectedEndOfInput => .unexpectedEndOfInput
  | expectedSeparator found _ => .expectedSeparator position found.written

end Fault

/-- Tokens without the connectors in front of them. -/
def skipConnectors (tokens : List Token) : List Token :=
  tokens.dropWhile Token.isConnector

theorem length_skipConnectors_le (tokens : List Token) :
    (skipConnectors tokens).length ≤ tokens.length :=
  (List.dropWhile_sublist _).length_le

namespace Reading

/-- A reading that leaves fewer than `bound` tokens, or a fault. -/
abbrev Within (bound : Nat) : Type :=
  Except Fault { reading : Reading Tree // reading.rest.length < bound }

/-- A reading that leaves fewer tokens than some bound leaves fewer than any
larger one. -/
def Within.weaken {bound bound' : Nat} (h : bound ≤ bound') : Within bound → Within bound'
  | .ok reading => .ok ⟨reading.val, Nat.lt_of_lt_of_le reading.property h⟩
  | .error fault => .error fault

mutual

/-- The reader behind `operation`. -/
def operationWithin (tokens : List Token) : Within tokens.length :=
  match termWithin tokens with
  | .error fault => .error fault
  | .ok ⟨left, h⟩ => (chainWithin left.value left.rest).weaken h
termination_by 2 * tokens.length + 1

/-- The reader behind `chain`. -/
def chainWithin (left : Tree) (tokens : List Token) : Within (tokens.length + 1) :=
  -- Connectors are gone from here on, whether an operator follows them or not.
  match h : skipConnectors tokens with
  | [] => .ok ⟨⟨left, []⟩, by simp⟩
  | token :: rest =>
      have hrest : rest.length < tokens.length := by
        have := length_skipConnectors_le tokens
        rw [h, List.length_cons] at this
        omega
      match token.operator? with
      | none => .ok ⟨⟨left, token :: rest⟩, by simp only [List.length_cons]; omega⟩
      | some op =>
          have hskip := length_skipConnectors_le rest
          match operationWithin (skipConnectors rest) with
          | .error fault => .error fault
          | .ok ⟨right, hright⟩ =>
              (chainWithin (.binary op left right.value) right.rest).weaken (by omega)
termination_by 2 * tokens.length

/-- The reader behind `term`. -/
def termWithin (tokens : List Token) : Within tokens.length :=
  match tokens with
  | [] => .error .unexpectedEndOfInput
  | token :: rest =>
      match token.kind with
      | .number => .ok ⟨⟨.number token.normalized token.written, rest⟩, by simp⟩
      | .identifier => .ok ⟨⟨.identifier token.normalized, rest⟩, by simp⟩
      | .operator op =>
          have hrest := length_skipConnectors_le rest
          match operationWithin (skipConnectors rest) with
          | .error fault => .error fault
          | .ok ⟨first, hfirst⟩ =>
              if op.arity = 1 then
                .ok ⟨⟨.unary op first.value, first.rest⟩, by
                  simp only [List.length_cons]
                  omega⟩
              else
                have hsecond := length_skipConnectors_le first.rest
                match operationWithin (skipConnectors first.rest) with
                | .error fault => .error fault
                | .ok ⟨second, h⟩ =>
                    .ok ⟨⟨.binary op first.value second.value, second.rest⟩, by
                      simp only [List.length_cons]
                      omega⟩
      | .sequence | .preposition | .comma | .assign => .error (.expectedTerm token rest)
termination_by 2 * tokens.length

end

/-- A reading without the bound on what is left. -/
def Within.forget {bound : Nat} : Within bound → Except Fault (Reading Tree)
  | .ok reading => .ok reading.val
  | .error fault => .error fault

/-- Reads a term and the operators written behind it.  The right-hand side of
such an operator is an operation of its own. -/
def operation (tokens : List Token) : Except Fault (Reading Tree) :=
  (operationWithin tokens).forget

/-- Reads the operators written behind `left`, each with its right-hand side.
Connectors are passed over even if no operator follows them. -/
def chain (left : Tree) (tokens : List Token) : Except Fault (Reading Tree) :=
  (chainWithin left tokens).forget

/-- Reads a number, a name, or an operator written in front of its operands. -/
def term (tokens : List Token) : Except Fault (Reading Tree) :=
  (termWithin tokens).forget

@[simp] theorem forget_weaken {bound bound' : Nat} (h : bound ≤ bound')
    (outcome : Within bound) : (outcome.weaken h).forget = outcome.forget := by
  cases outcome <;> rfl

theorem length_lt_of_forget {bound : Nat} {outcome : Within bound} {reading : Reading Tree}
    (h : outcome.forget = .ok reading) : reading.rest.length < bound := by
  cases outcome with
  | error fault => cases h
  | ok bounded =>
      cases h
      exact bounded.property

/-- An operation is a term and what is written behind it. -/
theorem operation_eq (tokens : List Token) :
    operation tokens =
      match term tokens with
      | .error fault => .error fault
      | .ok left => chain left.value left.rest := by
  rw [operation, operationWithin, term]
  cases termWithin tokens with
  | error fault => rfl
  | ok left => exact forget_weaken _ _

/-- An operator behind a term takes an operation to its right, and the whole
can be continued in the same way. -/
theorem chain_eq (left : Tree) (tokens : List Token) :
    chain left tokens =
      match skipConnectors tokens with
      | [] => .ok ⟨left, []⟩
      | token :: rest =>
          match token.operator? with
          | none => .ok ⟨left, token :: rest⟩
          | some op =>
              match operation (skipConnectors rest) with
              | .error fault => .error fault
              | .ok right => chain (.binary op left right.value) right.rest := by
  rw [chain, chainWithin]
  split
  · rename_i h
    rw [h]
    rfl
  · rename_i token rest h
    conv => rhs; rw [h]
    dsimp only
    cases token.operator? with
    | none => rfl
    | some op =>
        dsimp only [operation]
        cases operationWithin (skipConnectors rest) with
        | error fault => rfl
        | ok right => exact forget_weaken _ _

@[simp] theorem term_nil : term [] = .error .unexpectedEndOfInput := by
  rw [term, termWithin, Within.forget]

/-- The first token of a term decides what the term is. -/
theorem term_cons (token : Token) (rest : List Token) :
    term (token :: rest) =
      match token.kind with
      | .number => .ok ⟨.number token.normalized token.written, rest⟩
      | .identifier => .ok ⟨.identifier token.normalized, rest⟩
      | .operator op =>
          match operation (skipConnectors rest) with
          | .error fault => .error fault
          | .ok first =>
              if op.arity = 1 then
                .ok ⟨.unary op first.value, first.rest⟩
              else
                match operation (skipConnectors first.rest) with
                | .error fault => .error fault
                | .ok second => .ok ⟨.binary op first.value second.value, second.rest⟩
      | .sequence | .preposition | .comma | .assign => .error (.expectedTerm token rest) := by
  rw [term, termWithin]
  cases token.kind with
  | operator op =>
      dsimp only [operation]
      cases operationWithin (skipConnectors rest) with
      | error fault => rfl
      | ok first =>
          by_cases harity : op.arity = 1
          · simp [Within.forget, harity]
          · simp only [Within.forget, harity, if_false]
            cases operationWithin (skipConnectors first.val.rest) <;> rfl
  | number | identifier | sequence | preposition | comma | assign => rfl

theorem length_rest_operation {tokens : List Token} {reading : Reading Tree}
    (h : operation tokens = .ok reading) : reading.rest.length < tokens.length :=
  length_lt_of_forget h

theorem length_rest_term {tokens : List Token} {reading : Reading Tree}
    (h : term tokens = .ok reading) : reading.rest.length < tokens.length :=
  length_lt_of_forget h

end Reading
end SpokenArithmetic
