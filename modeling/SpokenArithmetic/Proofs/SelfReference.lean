import Mathlib.Data.List.Count
import SpokenArithmetic.Proofs.Influence
import SpokenArithmetic.Transcript

/-!
# Names in their own assignment

An assignment defines its name behind the segment of its value, so up to there
the name is unknown.  The segment need not go as far as the statement.  An
operand that is one too many ends it, and so does a second sign of assignment.
Behind such a token the statement goes on with the name defined
(`self_references_reported`).
-/

namespace SpokenArithmetic

/-- Whether a token reads a name. -/
def Token.reads (name : String) (token : Token) : Bool :=
  token.kind == .identifier && token.normalized == name

/-- What is found where an unknown name stands in its own assignment.  The
segment of the value ends behind `front`, and the statement behind `behind`. -/
structure SelfReferences (stage : Stage) (name : String) (front behind : List Placed) :
    Prop where
  /-- The name is reported once for each token of the segment that reads it, and
  for no other token of the statement. -/
  each : stage.verdict.diagnostics.count (.undefinedVariable name) =
    front.countP fun placed => placed.1.reads name
  /-- Tokens are left behind the segment only if its last token breaks it.  This
  is reported next to the unknown names of the segment. -/
  broken : behind ≠ [] → ∃ before last fault others, front = before ++ [last] ∧
    last.1.breach? = some fault ∧
    stage.verdict.diagnostics =
      Segment.readNames stage.scope (namesOf front) ++ fault :: others

theorem count_namesOf (name : String) (tokens : List Placed) :
    (namesOf tokens).count name = tokens.countP fun placed => placed.1.reads name := by
  induction tokens with
  | nil => rfl
  | cons placed rest ih =>
      unfold namesOf at ih ⊢
      rw [List.countP_cons, ← ih, List.filterMap_cons]
      by_cases hkind : placed.1.kind = .identifier <;>
        simp [Token.name?, Token.reads, hkind, List.count_cons]

theorem Segment.count_readNames {scope : Scope} {name : String}
    (h : scope.isDefined name = false) (names : List String) :
    (readNames scope names).count (.undefinedVariable name) = names.count name := by
  have hinjective : Function.Injective Diagnostic.undefinedVariable :=
    fun _ _ => Diagnostic.undefinedVariable.inj
  rw [readNames_eq_map, List.count_map_of_injective _ _ hinjective,
    List.count_filter (by simp [h])]

namespace Check

open Segment

/-! ## A defined name is not reported -/

theorem isDefined_scopeBehind {scope : Scope} {name : String} (h : scope.isDefined name = true)
    (check : Check) : (check.scopeBehind scope).isDefined name = true := by
  unfold scopeBehind
  cases check.target? with
  | none => exact h
  | some target => rw [Scope.isDefined_define, h, Bool.or_true]

theorem undefinedVariable_notMem_arityFaults (check : Check) (known : Bool) (name : String) :
    .undefinedVariable name ∉ check.arityFaults known :=
  fun hmem => Bool.noConfusion (isUndefinedVariable_of_mem_arityFaults hmem)

theorem undefinedVariable_notMem_faults {scope : Scope} {name : String}
    (h : scope.isDefined name = true) (check : Check) :
    .undefinedVariable name ∉ check.faults scope := by
  intro hmem
  rcases List.mem_append.mp hmem with hnames | harity
  · rw [readNames_eq_map] at hnames
    obtain ⟨_, hunknown, hname⟩ := List.mem_map.mp hnames
    obtain rfl := Diagnostic.undefinedVariable.inj hname
    simpa [h] using (List.mem_filter.mp hunknown).2
  · exact undefinedVariable_notMem_arityFaults check _ name harity

/-- Scopes only grow, so a name that is defined stays known to the end. -/
theorem undefinedVariable_notMem_run {scope : Scope} {name : String}
    (h : scope.isDefined name = true) (checks : List Check) :
    .undefinedVariable name ∉ (run scope checks).diagnostics := by
  induction checks generalizing scope with
  | nil => simp [run]
  | cons check rest ih =>
      rw [run, Verdict.diagnostics_report, List.mem_append, not_or]
      exact ⟨undefinedVariable_notMem_faults h check, ih (isDefined_scopeBehind h check)⟩

end Check

/-! ## An assignment -/

theorem Verdict.checks_assignment {target sign : Placed} (htarget : target.1.kind = .identifier)
    (hsign : sign.1.kind = .assign) (value : List Placed) :
    checks (target :: sign :: value) =
      .ofExtent (some target) (Extent.ofTokens Tally.zero value) ::
        checks (Extent.ofTokens Tally.zero value).rest := by
  obtain ⟨token, position⟩ := target
  rw [checks_cons, show token.kind = .identifier from htarget]
  simp only [assigned?, hsign, if_true]

theorem Check.faults_of_breach {extent : Extent} {fault : Diagnostic}
    (h : extent.ending.faults = [fault]) (target? : Option Placed) (scope : Scope) :
    (ofExtent target? extent).faults scope =
      Segment.readNames scope (namesOf extent.taken) ++
        fault :: (ofExtent target? extent).emptiness := by
  have hcomplete : extent.ending ≠ .complete := by
    intro hcomplete
    rw [hcomplete] at h
    cases h
  have harity : ∀ known, (ofExtent target? extent).arityFaults known =
      fault :: (ofExtent target? extent).emptiness := by
    intro known
    simp [arityFaults, ofExtent, hcomplete, h]
  rw [faults, harity]
  rfl

namespace Stage

variable {stage : Stage} {target sign : Placed} {value : List Placed}

/-- The faults of a statement that is an assignment are those of its value and
then what is found behind the value, where the name is defined. -/
theorem diagnostics_assignment (hstatement : stage.statement = target :: sign :: value)
    (htarget : target.1.kind = .identifier) (hsign : sign.1.kind = .assign) :
    stage.verdict.diagnostics =
      (Check.ofExtent (some target) (Extent.ofTokens Tally.zero value)).faults stage.scope ++
        (Check.run (stage.scope.define target.1.normalized target.2)
          (Verdict.checks (Extent.ofTokens Tally.zero value).rest)).diagnostics := by
  rw [verdict, hstatement, Verdict.ofPlaced_eq_run, Verdict.checks_assignment htarget hsign,
    Check.run, Verdict.diagnostics_report]
  rfl

/-- The value of an assignment is in front, and what its segment leaves of the
statement is behind. -/
theorem selfReferences_assignment (hstatement : stage.statement = target :: sign :: value)
    (htarget : target.1.kind = .identifier) (hsign : sign.1.kind = .assign)
    (hunknown : stage.scope.isDefined target.1.normalized = false)
    (hcomma : ∀ placed ∈ value, placed.1.kind ≠ .comma) :
    SelfReferences stage target.1.normalized (Extent.ofTokens Tally.zero value).taken
      (Extent.ofTokens Tally.zero value).rest := by
  have hdiagnostics := diagnostics_assignment hstatement htarget hsign
  have hsplit := Extent.taken_append_rest Tally.zero value
  have hlast := @Extent.exists_last_of_rest_ne_nil Tally.zero value
  generalize Extent.ofTokens Tally.zero value = extent at hdiagnostics hsplit hlast ⊢
  refine ⟨?_, fun hne => ?_⟩
  · have hdefined : (stage.scope.define target.1.normalized target.2).isDefined
        target.1.normalized = true := by
      simp
    have hbehind := List.count_eq_zero.mpr
      (Check.undefinedVariable_notMem_run hdefined (Verdict.checks extent.rest))
    have harity : ∀ known, ((Check.ofExtent (some target) extent).arityFaults known).count
        (.undefinedVariable target.1.normalized) = 0 := fun known =>
      List.count_eq_zero.mpr (Check.undefinedVariable_notMem_arityFaults _ known _)
    rw [hdiagnostics, Check.faults, List.count_append, List.count_append, harity, hbehind,
      Segment.count_readNames hunknown]
    exact count_namesOf _ _
  · obtain ⟨before, last, htaken, hfault⟩ := hlast hne
    have hmem : last ∈ value := by
      rw [← hsplit, htaken]
      simp
    obtain ⟨fault, hbreach, hending⟩ := hfault.resolve_left (hcomma last hmem)
    rw [Check.faults_of_breach hending, List.append_assoc, List.cons_append] at hdiagnostics
    exact ⟨before, last, fault, _, htaken, hbreach, hdiagnostics⟩

end Stage

end SpokenArithmetic
