import SpokenArithmetic.Segment

/-!
# Validation

Validation checks, without the trees of a sentence, that names are defined
before they are read and that operators get as many operands as they ask for.
It goes through the tokens once and never stops early.  An assignment checks
its value as one segment, and so does an operator at the start of a statement
what begins with it.  Between segments only the names that are read matter.
-/

namespace SpokenArithmetic

/-- What validation finds in a sentence, and the scope behind it. -/
structure Verdict where
  diagnostics : List Diagnostic
  scope : Scope

namespace Verdict

/-- Whether nothing was found. -/
def isValid (verdict : Verdict) : Bool :=
  verdict.diagnostics.isEmpty

/-- A verdict with some faults in front of its own. -/
def report (faults : List Diagnostic) (verdict : Verdict) : Verdict :=
  { verdict with diagnostics := faults ++ verdict.diagnostics }

/-- The tokens behind a sign of assignment. -/
def assigned? : List Placed → Option (List Placed)
  | (token, _) :: value => if token.kind = .assign then some value else none
  | [] => none

/-- The faults of an assignment to a name, where `segment` is its value. -/
def assignmentFaults (name : String) (segment : Segment) : List Diagnostic :=
  segment.faults ++ if segment.tally.terms = 0 then [.missingExpression name] else []

theorem length_assigned? {tokens value : List Placed} (h : assigned? tokens = some value) :
    value.length < tokens.length := by
  unfold assigned? at h
  split at h
  · split at h
    · cases h
      simp
    · cases h
  · cases h

/-- The verdict on the tokens that follow in a sentence.  A name becomes
defined only behind the whole segment of its assignment.  Outside segments
only names count. -/
def ofPlaced (scope : Scope) : List Placed → Verdict
  | [] => ⟨[], scope⟩
  | (token, position) :: rest =>
      match _ : token.kind with
      | .identifier =>
          match _ : assigned? rest with
          | some value =>
              -- The value is checked before the name is defined.
              let segment := Segment.ofTokens scope value
              report (assignmentFaults token.normalized segment)
                (ofPlaced (scope.define token.normalized position) segment.rest)
          | none =>
              report (Segment.readName scope token.normalized) (ofPlaced scope rest)
      | .operator _ =>
          -- The operator itself is the first token of its segment.
          let segment := Segment.ofTokens scope ((token, position) :: rest)
          report segment.faults (ofPlaced scope segment.rest)
      | .number | .sequence | .preposition | .comma | .assign => ofPlaced scope rest
termination_by tokens => tokens.length
decreasing_by
  · have := length_assigned? ‹_›
    have := Segment.length_rest_ofTokens_le scope value
    simp only [List.length_cons]
    omega
  · simp
  · exact Segment.length_rest_ofTokens_lt scope ‹_› position rest
  all_goals simp

@[simp] theorem ofPlaced_nil (scope : Scope) :
    ofPlaced scope [] = ⟨[], scope⟩ := by
  rw [ofPlaced]

/-- The first token of what follows decides how validation goes on. -/
theorem ofPlaced_cons (scope : Scope) (token : Token) (position : Nat)
    (rest : List Placed) :
    ofPlaced scope ((token, position) :: rest) =
      match token.kind with
      | .identifier =>
          match assigned? rest with
          | some value =>
              let segment := Segment.ofTokens scope value
              report (assignmentFaults token.normalized segment)
                (ofPlaced (scope.define token.normalized position) segment.rest)
          | none =>
              report (Segment.readName scope token.normalized) (ofPlaced scope rest)
      | .operator _ =>
          let segment := Segment.ofTokens scope ((token, position) :: rest)
          report segment.faults (ofPlaced scope segment.rest)
      | .number | .sequence | .preposition | .comma | .assign => ofPlaced scope rest := by
  rw [ofPlaced]
  split <;> rename_i hkind <;> rw [hkind]
  split <;> rename_i hassigned <;> rw [hassigned]

end Verdict

/-- The verdict on a sentence whose names are read in `scope`. -/
def validate (tokens : List Token) (scope : Scope) : Verdict :=
  Verdict.ofPlaced scope tokens.zipIdx

end SpokenArithmetic
