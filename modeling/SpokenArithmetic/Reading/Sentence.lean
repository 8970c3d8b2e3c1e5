import SpokenArithmetic.Reading

/-!
# Statements and sentences

A statement is an assignment or a bare operation.  A name directly in front
of a sign of assignment opens an assignment, and this is the one place where
reading looks two tokens ahead.  A sentence is a list of statements with a
comma between two of them.  One comma may also stand at the end, and the empty
sentence has no statements.
-/

namespace SpokenArithmetic
namespace Reading

/-- Reads an assignment or an operation. -/
def statement : List Token → Except Fault (Reading Tree)
  | target :: sign :: rest =>
      if target.kind = .identifier ∧ sign.kind = .assign then
        match operation rest with
        | .error fault => .error fault
        | .ok value => .ok ⟨.assignment target.written value.value, value.rest⟩
      else
        operation (target :: sign :: rest)
  | tokens => operation tokens

/-- A statement takes at least one token. -/
theorem length_rest_statement {tokens : List Token} {reading : Reading Tree}
    (h : statement tokens = .ok reading) : reading.rest.length < tokens.length := by
  unfold statement at h
  split at h
  · split at h
    · split at h
      · cases h
      · rename_i value hvalue
        cases h
        have := length_rest_operation hvalue
        simp only [List.length_cons]
        omega
    · exact length_rest_operation h
  · exact length_rest_operation h

/-- Reads all tokens as statements between commas. -/
def sentence : List Token → Except Fault (List Tree)
  | [] => .ok []
  | token :: following =>
      match _ : statement (token :: following) with
      | .error fault => .error fault
      | .ok ⟨first, []⟩ => .ok [first]
      | .ok ⟨first, separator :: rest⟩ =>
          if separator.kind = .comma then
            match sentence rest with
            | .error fault => .error fault
            | .ok others => .ok (first :: others)
          else
            .error (.expectedSeparator separator rest)
termination_by tokens => tokens.length
decreasing_by
  have := length_rest_statement ‹_›
  simp only [List.length_cons] at this ⊢
  omega

@[simp] theorem sentence_nil : sentence [] = .ok [] := by
  rw [sentence]

/-- A sentence that is not empty is a statement, and what follows the comma
behind it. -/
theorem sentence_eq {tokens : List Token} (h : tokens ≠ []) :
    sentence tokens =
      match statement tokens with
      | .error fault => .error fault
      | .ok ⟨first, []⟩ => .ok [first]
      | .ok ⟨first, separator :: rest⟩ =>
          if separator.kind = .comma then
            match sentence rest with
            | .error fault => .error fault
            | .ok others => .ok (first :: others)
          else
            .error (.expectedSeparator separator rest) := by
  cases tokens with
  | nil => exact absurd rfl h
  | cons token following =>
      rw [sentence]
      split <;> rename_i hstatement <;> rw [hstatement]

end Reading

/-- The trees of the statements of a sentence, or its first fault of
structure. -/
def parse (tokens : List Token) : Except ParseError (List Tree) :=
  (Reading.sentence tokens).mapError (·.locate tokens.length)

end SpokenArithmetic
