import SpokenArithmetic.Proofs.Arity
import SpokenArithmetic.Proofs.Checks

/-!
# What the scope changes

The same sentence is validated here in two scopes.  The runs go through the same
checks, since these are decided by the tokens, and in a check each run finds the
faults of arity that the tokens have (`Check.Reported`).  There is one exception.
Missing operands are not reported beside an unknown name, so the two runs can
differ in them and, apart from the names themselves, in nothing else
(`arity_faults_agree`).
-/

namespace SpokenArithmetic

/-- Whether a fault is found in every scope or in none. -/
def Diagnostic.isFixed (fault : Diagnostic) : Bool :=
  !fault.isUndefinedVariable && !fault.isMissingOperands

/-- Whether a name is among some faults. -/
def findsUnknown (report : List Diagnostic) : Bool :=
  report.any Diagnostic.isUndefinedVariable

namespace Check

open Segment

/-- What a run finds in a check as far as arity is concerned.  The faults on the
right do not depend on a scope. -/
structure Reported (check : Check) (report : List Diagnostic) : Prop where
  /-- Without an unknown name everything is found, operands that are missing at
  the end included. -/
  known : findsUnknown report = false → report = check.arityFaults true
  /-- With one, everything is found but for missing operands. -/
  unknown : findsUnknown report = true →
    report.filter (!·.isUndefinedVariable) =
      (check.arityFaults true).filter (!·.isMissingOperands)

/-- What two runs find in the same check as far as arity is concerned. -/
structure SameArity (report report' : List Diagnostic) : Prop where
  known : findsUnknown report = false → findsUnknown report' = false → report = report'
  fixed : report.filter Diagnostic.isFixed = report'.filter Diagnostic.isFixed

/-! ## One check -/

theorem findsUnknown_readNames (scope : Scope) (names : List String) :
    findsUnknown (readNames scope names) = !names.all fun name => scope.isDefined name := by
  induction names with
  | nil => rfl
  | cons name names ih =>
      rw [← List.singleton_append, readNames_append, readNames_singleton, findsUnknown,
        List.any_append, List.all_append, Bool.not_and]
      congr 1
      · by_cases h : scope.isDefined name = true <;>
          simp [readName, h, Diagnostic.isUndefinedVariable]

theorem isMissingOperands_of_mem_missing {tally : Tally} {fault : Diagnostic}
    (h : fault ∈ tally.missing) : fault.isMissingOperands = true := by
  unfold Tally.missing at h
  cases hlast : tally.lastOperator with
  | none => simp [hlast] at h
  | some text =>
      by_cases hneeded : tally.needed = 0
      · simp [hlast, hneeded] at h
      · simp only [hlast, hneeded, if_false, List.mem_singleton] at h
        rw [h]
        rfl

theorem isFixed_of_mem_faults {ending : Ending} {fault : Diagnostic} (h : fault ∈ ending.faults) :
    fault.isFixed = true := by
  cases ending with
  | complete => cases h
  | surplus text =>
      rw [List.mem_singleton.mp h]
      rfl
  | stray text =>
      rw [List.mem_singleton.mp h]
      rfl

theorem isFixed_of_mem_emptiness {check : Check} {fault : Diagnostic}
    (h : fault ∈ check.emptiness) : fault.isFixed = true := by
  unfold emptiness at h
  cases htarget : check.target? with
  | none => simp [htarget] at h
  | some target =>
      by_cases hterms : check.tally.terms = 0
      · simp only [htarget, hterms, if_true, List.mem_singleton] at h
        rw [h]
        rfl
      · simp [htarget, hterms] at h

theorem isUndefinedVariable_of_mem_arityFaults {check : Check} {known : Bool} {fault : Diagnostic}
    (h : fault ∈ check.arityFaults known) : fault.isUndefinedVariable = false := by
  have hfixed : fault.isFixed = true → fault.isUndefinedVariable = false := by
    cases fault <;> simp [Diagnostic.isFixed, Diagnostic.isUndefinedVariable]
  have hmissing : fault.isMissingOperands = true → fault.isUndefinedVariable = false := by
    cases fault <;> simp [Diagnostic.isMissingOperands, Diagnostic.isUndefinedVariable]
  unfold arityFaults at h
  rcases List.mem_append.mp h with h | h
  · split at h
    · exact hmissing (isMissingOperands_of_mem_missing h)
    · exact hfixed (isFixed_of_mem_faults h)
  · exact hfixed (isFixed_of_mem_emptiness h)

/-- If a name is unknown the same faults of arity are found, but for missing
operands. -/
theorem arityFaults_false (check : Check) :
    check.arityFaults false = (check.arityFaults true).filter (!·.isMissingOperands) := by
  have hkept : ∀ faults : List Diagnostic, (∀ fault ∈ faults, fault.isFixed = true) →
      faults.filter (!·.isMissingOperands) = faults := by
    intro faults hfixed
    refine List.filter_eq_self.mpr fun fault hmem => ?_
    exact (Bool.and_eq_true_iff.mp (hfixed fault hmem)).2
  have hfaults := hkept check.ending.faults fun _ => isFixed_of_mem_faults
  have hemptiness := hkept check.emptiness fun _ => isFixed_of_mem_emptiness
  unfold arityFaults
  rw [List.filter_append, hemptiness]
  congr 1
  by_cases hcomplete : check.ending = .complete
  · have hmissing : check.tally.missing.filter (!·.isMissingOperands) = [] := by
      refine List.filter_eq_nil_iff.mpr fun fault hmem => ?_
      simp [isMissingOperands_of_mem_missing hmem]
    simp [hcomplete, hmissing, Ending.faults]
  · simp [hcomplete, hfaults]

theorem findsUnknown_faults (check : Check) (scope : Scope) :
    findsUnknown (check.faults scope) = !check.names.all fun name => scope.isDefined name := by
  have harity : ∀ known, findsUnknown (check.arityFaults known) = false := by
    intro known
    refine List.any_eq_false.mpr fun fault hmem => ?_
    simp [isUndefinedVariable_of_mem_arityFaults hmem]
  rw [← findsUnknown_readNames, faults, findsUnknown, List.any_append]
  exact (congrArg _ (harity _)).trans (Bool.or_false _)

/-- Without its unknown names a check has the faults of its arity left. -/
theorem filter_faults (check : Check) (scope : Scope) :
    (check.faults scope).filter (!·.isUndefinedVariable) =
      check.arityFaults (check.names.all fun name => scope.isDefined name) := by
  have hnames : (readNames scope check.names).filter (!·.isUndefinedVariable) = [] := by
    refine List.filter_eq_nil_iff.mpr fun fault hmem => ?_
    rw [readNames_eq_map] at hmem
    obtain ⟨name, -, rfl⟩ := List.mem_map.mp hmem
    simp [Diagnostic.isUndefinedVariable]
  have harity : ∀ known,
      (check.arityFaults known).filter (!·.isUndefinedVariable) = check.arityFaults known := by
    intro known
    refine List.filter_eq_self.mpr fun fault hmem => ?_
    simp [isUndefinedVariable_of_mem_arityFaults hmem]
  rw [faults, List.filter_append, hnames, harity, List.nil_append]

theorem reported_faults (check : Check) (scope : Scope) :
    Reported check (check.faults scope) where
  known h := by
    have hknown := (findsUnknown_faults check scope).symm.trans h
    rw [Bool.not_eq_false'] at hknown
    rw [faults, hknown, (readNames_eq_nil_iff scope check.names).mpr hknown, List.nil_append]
  unknown h := by
    have hunknown := (findsUnknown_faults check scope).symm.trans h
    rw [Bool.not_eq_true'] at hunknown
    rw [filter_faults, hunknown, arityFaults_false]

/-! ## Two runs through the same checks -/

theorem filter_isFixed_filter {keep : Diagnostic → Bool}
    (h : ∀ fault, fault.isFixed = true → keep fault = true) (report : List Diagnostic) :
    (report.filter keep).filter Diagnostic.isFixed = report.filter Diagnostic.isFixed := by
  rw [List.filter_filter]
  refine List.filter_congr fun fault _ => ?_
  cases hfixed : fault.isFixed with
  | false => rfl
  | true => rw [h fault hfixed, Bool.and_self]

/-- The fixed faults are found in every scope. -/
theorem Reported.filter_isFixed {check : Check} {report : List Diagnostic}
    (h : Reported check report) :
    report.filter Diagnostic.isFixed = (check.arityFaults true).filter Diagnostic.isFixed := by
  cases hfinds : findsUnknown report with
  | false => rw [h.known hfinds]
  | true =>
      -- Neither what is left out of the report nor missing operands are fixed.
      rw [← filter_isFixed_filter (fun fault hfixed => (Bool.and_eq_true_iff.mp hfixed).1) report,
        h.unknown hfinds,
        filter_isFixed_filter fun fault hfixed => (Bool.and_eq_true_iff.mp hfixed).2]

theorem Reported.sameArity {check : Check} {report report' : List Diagnostic}
    (h : Reported check report) (h' : Reported check report') : SameArity report report' where
  known hfinds hfinds' := (h.known hfinds).trans (h'.known hfinds').symm
  fixed := h.filter_isFixed.trans h'.filter_isFixed.symm

theorem reported_reports (scope : Scope) (checks : List Check) :
    List.Forall₂ Reported checks (reports scope checks) := by
  induction checks generalizing scope with
  | nil => exact .nil
  | cons check rest ih => exact .cons (reported_faults check scope) (ih _)

theorem sameArity_reports (scope scope' : Scope) (checks : List Check) :
    List.Forall₂ SameArity (reports scope checks) (reports scope' checks) := by
  induction checks generalizing scope scope' with
  | nil => exact .nil
  | cons check rest ih =>
      exact .cons ((reported_faults check scope).sameArity (reported_faults check scope'))
        (ih _ _)

theorem filter_flatten_of_sameArity {reports reports' : List (List Diagnostic)}
    (h : List.Forall₂ SameArity reports reports') :
    reports.flatten.filter Diagnostic.isFixed = reports'.flatten.filter Diagnostic.isFixed := by
  induction h with
  | nil => rfl
  | cons hreport _ ih =>
      rw [List.flatten_cons, List.flatten_cons, List.filter_append, List.filter_append,
        hreport.fixed, ih]

end Check

/-- The checks of a sentence do not depend on the scope.  In each of them two
runs find the same faults, unknown names apart, if neither run meets an unknown
name there.  If one does, operands that are missing at the end can be reported
in the other only, and all other faults are still the same. -/
theorem arity_faults_agree (tokens : List Token) (scope scope' : Scope) :
    (∀ start, (validate tokens start).diagnostics =
        (Check.reports start (Verdict.checks tokens.zipIdx)).flatten ∧
      List.Forall₂ Check.Reported (Verdict.checks tokens.zipIdx)
        (Check.reports start (Verdict.checks tokens.zipIdx))) ∧
    List.Forall₂ Check.SameArity (Check.reports scope (Verdict.checks tokens.zipIdx))
      (Check.reports scope' (Verdict.checks tokens.zipIdx)) ∧
    (validate tokens scope).diagnostics.filter Diagnostic.isFixed =
      (validate tokens scope').diagnostics.filter Diagnostic.isFixed := by
  have hdiagnostics : ∀ start, (validate tokens start).diagnostics =
      (Check.reports start (Verdict.checks tokens.zipIdx)).flatten := by
    intro start
    rw [validate, Verdict.ofPlaced_eq_run, Check.diagnostics_run]
  have hsame := Check.sameArity_reports scope scope' (Verdict.checks tokens.zipIdx)
  refine ⟨fun start => ⟨hdiagnostics start, Check.reported_reports start _⟩, hsame, ?_⟩
  rw [hdiagnostics, hdiagnostics, Check.filter_flatten_of_sameArity hsame]

/-- An operator that waits for an operand is not reported beside an unknown
name, so it is reported in one scope and not in the other. -/
theorem missingOperands_depends_on_scope :
    (validate (Transcript.ofSource "suma x").tokens .empty).diagnostics =
        [.undefinedVariable "x"] ∧
      (validate (Transcript.ofSource "suma x").tokens (Scope.empty.define "x" 0)).diagnostics =
        [.missingOperands "suma"] ∧
      (validate (Transcript.ofSource "suma x").tokens .empty).diagnostics.filter
          (!·.isUndefinedVariable) ≠
        (validate (Transcript.ofSource "suma x").tokens
          (Scope.empty.define "x" 0)).diagnostics.filter (!·.isUndefinedVariable) := by
  decide +kernel

end SpokenArithmetic
