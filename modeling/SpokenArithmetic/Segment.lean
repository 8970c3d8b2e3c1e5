import SpokenArithmetic.Diagnostic
import SpokenArithmetic.Scope
import SpokenArithmetic.Token

/-!
# Segments

Operands are counted over a segment, which is the value of an assignment or
the part of a bare operation from its first operator on.  A segment ends
behind a comma, at the end, or behind the first token that breaks it.  The
count is flat: each operator adds its arity to what is needed, each operand
behind the first operator takes one away, and an operator is never itself an
operand of another.
-/

namespace SpokenArithmetic

/-- A token and its position in the sentence. -/
abbrev Placed : Type := Token × Nat

/-- What has been counted in a segment. -/
structure Tally where
  /-- The number of operators and operands. -/
  terms : Nat
  /-- The number of operands that the operators still ask for. -/
  needed : Nat
  /-- The text of the last operator. -/
  lastOperator : Option String
deriving DecidableEq, Repr

namespace Tally

/-- The count before the first token of a segment. -/
def zero : Tally := ⟨0, 0, none⟩

/-- The count after one more operator. -/
def operator (tally : Tally) (op : Operator) (text : String) : Tally :=
  ⟨tally.terms + 1, tally.needed + op.arity, some text⟩

/-- The count after one more operand.  Before the first operator nothing is
needed, and what is needed then stays at zero. -/
def operand (tally : Tally) : Tally :=
  { tally with terms := tally.terms + 1, needed := tally.needed - 1 }

/-- Whether the next operand is one too many. -/
def isFull (tally : Tally) : Bool :=
  tally.lastOperator.isSome && tally.needed == 0

/-- The fault of a segment that ends while an operator waits for operands. -/
def missing (tally : Tally) : List Diagnostic :=
  match tally.lastOperator with
  | some text => if tally.needed = 0 then [] else [.missingOperands text]
  | none => []

end Tally

/-- A checked segment: its faults, its count, and the tokens behind it. -/
structure Segment where
  faults : List Diagnostic
  tally : Tally
  rest : List Placed

namespace Segment

/-- A segment with some faults in front of its own. -/
def report (faults : List Diagnostic) (segment : Segment) : Segment :=
  { segment with faults := faults ++ segment.faults }

@[simp] theorem report_report (faults faults' : List Diagnostic) (segment : Segment) :
    report faults (report faults' segment) = report (faults ++ faults') segment := by
  simp [report]

/-- The faults of reading a name. -/
def readName (scope : Scope) (name : String) : List Diagnostic :=
  if scope.isDefined name then [] else [.undefinedVariable name]

/-- The segment that goes on from what has been counted, up to its end. -/
def scan (scope : Scope) (tally : Tally) : List Placed → Segment
  | [] => ⟨[], tally, []⟩
  | (token, _) :: rest =>
      match token.kind with
      | .operator op => scan scope (tally.operator op token.written) rest
      | .number =>
          if tally.isFull then
            ⟨[.unexpectedOperand token.written], tally.operand, rest⟩
          else
            scan scope tally.operand rest
      | .identifier =>
          -- An unknown name is reported even where the operand is one too many.
          report (readName scope token.normalized)
            (if tally.isFull then
              ⟨[.unexpectedOperand token.written], tally.operand, rest⟩
            else
              scan scope tally.operand rest)
      | .comma => ⟨[], tally, rest⟩
      | .assign => ⟨[.unexpectedToken token.written], tally, rest⟩
      | .sequence | .preposition => scan scope tally rest

/-- The segment at the start of some tokens.  Operands that are missing at its
end are reported only if nothing else is wrong with it. -/
def ofTokens (scope : Scope) (tokens : List Placed) : Segment :=
  let segment := scan scope Tally.zero tokens
  if segment.faults.isEmpty then
    { segment with faults := segment.tally.missing }
  else
    segment

theorem length_rest_scan_le (scope : Scope) (tally : Tally)
    (tokens : List Placed) : (scan scope tally tokens).rest.length ≤ tokens.length := by
  induction tokens generalizing tally with
  | nil => simp [scan]
  | cons placed rest ih =>
      obtain ⟨token, position⟩ := placed
      rw [scan]
      split
      · exact Nat.le_succ_of_le (ih _)
      · split
        · simp
        · exact Nat.le_succ_of_le (ih _)
      · dsimp only [report]
        split
        · simp
        · exact Nat.le_succ_of_le (ih _)
      · simp
      · simp
      · exact Nat.le_succ_of_le (ih _)
      · exact Nat.le_succ_of_le (ih _)

/-- A segment leaves no more tokens than it was given. -/
theorem length_rest_ofTokens_le (scope : Scope) (tokens : List Placed) :
    (ofTokens scope tokens).rest.length ≤ tokens.length := by
  have h := length_rest_scan_le scope Tally.zero tokens
  unfold ofTokens
  dsimp only
  split <;> exact h

/-- A segment that begins with an operator takes that operator. -/
theorem length_rest_ofTokens_lt (scope : Scope) {token : Token} {op : Operator}
    (h : token.kind = .operator op) (position : Nat) (rest : List Placed) :
    (ofTokens scope ((token, position) :: rest)).rest.length < rest.length + 1 := by
  have hscan := length_rest_scan_le scope (Tally.zero.operator op token.written) rest
  unfold ofTokens
  simp only [scan, h]
  split <;> exact Nat.lt_succ_of_le hscan

end Segment
end SpokenArithmetic
