import SpokenArithmetic.Token

/-!
# Acceptance with one counter

Whether a list of tokens has a structure shows in a single pass from left to
right.  The pass keeps its place in the current statement and one number, which
counts the operators of arity two that still wait for their second operand.
No tree is built, and of a token only the kind matters.
-/

namespace SpokenArithmetic
namespace Acceptance

/-- A place between two tokens of a statement. -/
inductive Place where
  /-- In front of a statement. -/
  | start
  /-- Behind a sign of assignment. -/
  | value
  /-- Behind an operator, where connectors may stand. -/
  | need
  /-- Behind an operand, where connectors may stand. -/
  | done
deriving DecidableEq, Repr

/-- The place and the count behind a token that opens a term. -/
def openTerm (waiting : Nat) : Kind → Option (Place × Nat)
  | .number | .identifier => some (.done, waiting)
  | .operator op => some (.need, if op.arity = 1 then waiting else waiting + 1)
  | .sequence | .preposition | .comma | .assign => none

/-- The place and the count behind one more token, if it can stand there. -/
def Place.step (place : Place) (waiting : Nat) (kind : Kind) : Option (Place × Nat) :=
  match place with
  | .start | .value => openTerm waiting kind
  | .need => if kind.isConnector then some (.need, waiting) else openTerm waiting kind
  | .done =>
      match kind with
      | .sequence | .preposition => some (.done, waiting)
      | .operator _ => some (.need, waiting)
      | .number | .identifier => if waiting = 0 then none else some (.done, waiting - 1)
      | .comma => if waiting = 0 then some (.start, 0) else none
      | .assign => none

/-- Whether the rest of a sentence is accepted from a place and a count.  In
front of a statement a name and a sign of assignment go together. -/
def acceptsFrom : Place → Nat → List Kind → Bool
  | place, waiting, [] => place == .start || (place == .done && waiting == 0)
  | .start, waiting, .identifier :: .assign :: rest => acceptsFrom .value waiting rest
  | place, waiting, kind :: rest =>
      match place.step waiting kind with
      | some (next, count) => acceptsFrom next count rest
      | none => false

/-- Whether a list of tokens is accepted. -/
def accepts (tokens : List Token) : Bool :=
  acceptsFrom .start 0 (tokens.map (·.kind))

end Acceptance
end SpokenArithmetic
