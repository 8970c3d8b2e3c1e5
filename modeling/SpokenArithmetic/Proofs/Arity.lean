import SpokenArithmetic.Proofs.Judgement
import SpokenArithmetic.Transcript

/-!
# Reading and validation on arity

An operator in front of its operands is read with as many operations as its
arity says, and an operator between two operands with one on either side.
Validation counts operands without the trees, so that it may still say of a
sentence that can be read that operands are missing.  When it does is decided
by the tree alone, as long as the names in the segment are known.  It never
finds any other fault of arity in such a sentence.
-/

namespace SpokenArithmetic

/-- Whether a fault says that an operator waits for operands. -/
def Diagnostic.isMissingOperands : Diagnostic → Bool
  | missingOperands _ => true
  | _ => false

/-- What validation finds in a statement, as far as the arity of operators is
concerned, compared with the tree that the statement is read as. -/
structure ArityAgrees (tree : Tree) (stage : Stage) : Prop where
  /-- Outside the checked segment nothing but unknown names is found. -/
  outside : ∃ names : List String,
    stage.verdict.diagnostics = names.map .undefinedVariable ++ stage.segment.faults
  /-- Nothing but unknown names and missing operands is found at all. -/
  kinds : ∀ fault ∈ stage.verdict.diagnostics,
    fault.isUndefinedVariable = true ∨ fault.isMissingOperands = true
  /-- Operands are missing if the tree demands more than one for an operator
  at the start, unless an unknown name stands in the checked segment. -/
  missing : (∃ text, .missingOperands text ∈ stage.verdict.diagnostics) ↔
    stage.opening < tree.demand ∧ ∀ name, .undefinedVariable name ∉ stage.segment.faults
  /-- They are missing at the last operator of the statement. -/
  text : ∀ text, .missingOperands text ∈ stage.verdict.diagnostics →
    stage.lastOperator? = some text
  /-- This is said at most once. -/
  once : stage.verdict.diagnostics.countP Diagnostic.isMissingOperands ≤ 1

namespace Segment

theorem exists_of_mem_readNames {scope : Scope} {names : List String} {fault : Diagnostic}
    (h : fault ∈ readNames scope names) : ∃ name, fault = .undefinedVariable name := by
  rw [readNames_eq_map] at h
  obtain ⟨name, -, hname⟩ := List.mem_map.mp h
  exact ⟨name, hname.symm⟩

theorem missingOperands_notMem_readNames (scope : Scope) (names : List String) (text : String) :
    .missingOperands text ∉ readNames scope names := by
  intro hmem
  obtain ⟨name, hname⟩ := exists_of_mem_readNames hmem
  cases hname

theorem countP_readNames (scope : Scope) (names : List String) :
    (readNames scope names).countP Diagnostic.isMissingOperands = 0 := by
  refine List.countP_eq_zero.mpr ?_
  intro fault hmem
  obtain ⟨name, rfl⟩ := exists_of_mem_readNames hmem
  exact Bool.false_ne_true

end Segment

namespace ArityAgrees

variable {tree : Tree} {stage : Stage} {names : List String}

/-- Where only unknown names are found, none of the operands is missing. -/
theorem of_readNames {names' : List String}
    (hdiagnostics : stage.verdict.diagnostics = Segment.readNames stage.scope names)
    (houtside : stage.verdict.diagnostics =
      names'.map .undefinedVariable ++ stage.segment.faults)
    (hnot : ¬(stage.opening < tree.demand ∧
      ∀ name, .undefinedVariable name ∉ stage.segment.faults)) :
    ArityAgrees tree stage := by
  have hnone : ∀ text, .missingOperands text ∉ stage.verdict.diagnostics := by
    intro text
    rw [hdiagnostics]
    exact Segment.missingOperands_notMem_readNames _ _ text
  constructor
  case outside => exact ⟨_, houtside⟩
  case kinds =>
    intro fault hmem
    rw [hdiagnostics] at hmem
    obtain ⟨name, rfl⟩ := Segment.exists_of_mem_readNames hmem
    exact Or.inl rfl
  case missing =>
    constructor
    · rintro ⟨text, hmem⟩
      exact absurd hmem (hnone text)
    · intro hmissing
      exact absurd hmissing hnot
  case text =>
    intro text hmem
    exact absurd hmem (hnone text)
  case once =>
    rw [hdiagnostics, Segment.countP_readNames]
    exact Nat.zero_le 1

/-- Where the segment has nothing but missing operands, these are found behind
the unknown names. -/
theorem of_missing {text : String}
    (hdiagnostics : stage.verdict.diagnostics =
      Segment.readNames stage.scope names ++ stage.segment.faults)
    (hfaults : stage.segment.faults = [.missingOperands text])
    (htext : stage.lastOperator? = some text) (hopening : stage.opening < tree.demand) :
    ArityAgrees tree stage := by
  have hmem : ∀ fault ∈ stage.verdict.diagnostics,
      (∃ name, fault = .undefinedVariable name) ∨ fault = .missingOperands text := by
    intro fault hmem
    rw [hdiagnostics, hfaults, List.mem_append, List.mem_singleton] at hmem
    rcases hmem with hmem | rfl
    · exact Or.inl (Segment.exists_of_mem_readNames hmem)
    · exact Or.inr rfl
  constructor
  case outside => exact ⟨_, by rw [hdiagnostics, Segment.readNames_eq_map]⟩
  case kinds =>
    intro fault hfault
    rcases hmem fault hfault with ⟨name, rfl⟩ | rfl
    · exact Or.inl rfl
    · exact Or.inr rfl
  case missing =>
    have hfound : .missingOperands text ∈ stage.verdict.diagnostics := by
      simp [hdiagnostics, hfaults]
    have hknown : ∀ name, .undefinedVariable name ∉ stage.segment.faults := by
      simp [hfaults]
    exact iff_of_true ⟨text, hfound⟩ ⟨hopening, hknown⟩
  case text =>
    intro text' hfault
    rcases hmem _ hfault with ⟨name, hname⟩ | htext'
    · cases hname
    · cases htext'
      exact htext
  case once =>
    rw [hdiagnostics, hfaults, List.countP_append, Segment.countP_readNames]
    exact Nat.le_refl 1

end ArityAgrees

/-- The two passes agree on each statement. -/
theorem Judged.arityAgrees {tree : Tree} {stage : Stage} {outside inside : List String}
    (h : Judged tree stage outside inside) : ArityAgrees tree stage := by
  have hdiagnostics : stage.verdict.diagnostics =
      Segment.readNames stage.scope outside ++ stage.segment.faults := by
    rw [h.verdict]
  have houtside := hdiagnostics
  rw [Segment.readNames_eq_map] at houtside
  rcases h.faults_cases with ⟨hne, hfaults⟩ | ⟨hfaults, hopening⟩ |
    ⟨text, hfaults, htext, hopening⟩
  · -- An unknown name stands in the segment.
    have hnames : stage.verdict.diagnostics =
        Segment.readNames stage.scope (outside ++ inside) := by
      rw [hdiagnostics, hfaults, Segment.readNames_append]
    refine .of_readNames hnames houtside ?_
    rintro ⟨-, hknown⟩
    obtain ⟨fault, hmem⟩ := List.exists_mem_of_ne_nil _ hne
    obtain ⟨name, rfl⟩ := Segment.exists_of_mem_readNames (hfaults ▸ hmem)
    exact hknown name hmem
  · -- The tree demands no more than an operator at the start does.
    have hnames : stage.verdict.diagnostics = Segment.readNames stage.scope outside := by
      rw [hdiagnostics, hfaults, List.append_nil]
    refine .of_readNames hnames houtside ?_
    rintro ⟨hless, -⟩
    omega
  · exact .of_missing hdiagnostics hfaults htext hopening

theorem exists_arityAgrees {trees : List Tree} {stages : List Stage}
    (h : List.Forall₂ ArityAgrees trees stages) {stage : Stage} (hstage : stage ∈ stages) :
    ∃ tree, ArityAgrees tree stage := by
  induction h with
  | nil => cases hstage
  | cons hagrees _ ih =>
      rcases List.mem_cons.mp hstage with rfl | hstage
      · exact ⟨_, hagrees⟩
      · exact ih hstage

/-- For every sentence that can be read, validation finds nothing but unknown
names and missing operands, goes through the statements one by one, and agrees
in each of them with the tree about the arity of the operators. -/
theorem arity_agrees {tokens : List Token} {trees : List Tree} (h : parse tokens = .ok trees)
    (scope : Scope) :
    (validate tokens scope).diagnostics =
        (Stage.ofStatements scope (statements tokens.zipIdx)).flatMap
          (·.verdict.diagnostics) ∧
      (∀ text, .unexpectedOperand text ∉ (validate tokens scope).diagnostics) ∧
      (∀ text, .unexpectedToken text ∉ (validate tokens scope).diagnostics) ∧
      (∀ name, .missingExpression name ∉ (validate tokens scope).diagnostics) ∧
      List.Forall₂ ArityAgrees trees (Stage.ofStatements scope (statements tokens.zipIdx)) := by
  have hjudged := (Reading.parse_eq_ok_iff.mp h).forall₂_judged scope 0
  have hagrees : List.Forall₂ ArityAgrees trees
      (Stage.ofStatements scope (statements tokens.zipIdx)) :=
    hjudged.imp fun tree stage ⟨outside, inside, hstage⟩ => hstage.arityAgrees
  have hdiagnostics : (validate tokens scope).diagnostics =
      (Stage.ofStatements scope (statements tokens.zipIdx)).flatMap
        (·.verdict.diagnostics) := by
    rw [validate, Verdict.ofPlaced_eq_stages]
  have hkinds : ∀ fault ∈ (validate tokens scope).diagnostics,
      fault.isUndefinedVariable = true ∨ fault.isMissingOperands = true := by
    intro fault hmem
    rw [hdiagnostics] at hmem
    obtain ⟨stage, hstage, hfault⟩ := List.mem_flatMap.mp hmem
    obtain ⟨tree, hagree⟩ := exists_arityAgrees hagrees hstage
    exact hagree.kinds fault hfault
  refine ⟨hdiagnostics, ?_, ?_, ?_, hagrees⟩
  · intro text hmem
    simpa [Diagnostic.isUndefinedVariable, Diagnostic.isMissingOperands] using hkinds _ hmem
  · intro text hmem
    simpa [Diagnostic.isUndefinedVariable, Diagnostic.isMissingOperands] using hkinds _ hmem
  · intro name hmem
    simpa [Diagnostic.isUndefinedVariable, Diagnostic.isMissingOperands] using hkinds _ hmem

/-- An operator inside an operand is counted as if it stood beside it. -/
theorem arity_agrees_of_nested_root :
    parse (Transcript.ofSource "raiz de suma 7 y 2").tokens =
        .ok [.unary .root (.binary .add (.number "7" "7") (.number "2" "2"))] ∧
      (validate (Transcript.ofSource "raiz de suma 7 y 2").tokens .empty).diagnostics =
        [.missingOperands "suma"] ∧
      List.Forall₂ ArityAgrees
        [.unary .root (.binary .add (.number "7" "7") (.number "2" "2"))]
        (Stage.ofStatements .empty
          (statements (Transcript.ofSource "raiz de suma 7 y 2").tokens.zipIdx)) := by
  have hparse : parse (Transcript.ofSource "raiz de suma 7 y 2").tokens =
      .ok [.unary .root (.binary .add (.number "7" "7") (.number "2" "2"))] := by
    decide +kernel
  obtain ⟨-, -, -, -, hagrees⟩ := arity_agrees hparse .empty
  exact ⟨hparse, by decide +kernel, hagrees⟩

end SpokenArithmetic
