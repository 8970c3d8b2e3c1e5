import SpokenArithmetic.Outcome
import SpokenArithmetic.Proofs.Checks

/-!
# Larger scopes

A sentence that is valid in a scope is valid in every scope that defines more
names.  Nothing is hidden behind an unknown name there: a valid check has no
unknown names, so its missing operands would be reported as well
(`Check.faults_eq_nil_iff`).  A run over the lines of a file only ever defines
names, and so the lines of two files that succeed also succeed one behind the
other (`Outcome.success_ofSentences_append`).
-/

namespace SpokenArithmetic

/-- Whether every name that is defined in one scope is defined in another. -/
def Scope.Within (scope scope' : Scope) : Prop :=
  ∀ name, scope.isDefined name = true → scope'.isDefined name = true

namespace Scope.Within

variable {scope scope' : Scope}

theorem empty (scope : Scope) : Scope.empty.Within scope := by
  intro name h
  simp at h

theorem define (h : scope.Within scope') (name : String) (position : Nat) :
    (scope.define name position).Within (scope'.define name position) := by
  intro other hother
  rw [isDefined_define, Bool.or_eq_true] at hother ⊢
  exact hother.imp_right (h other)

theorem define_right (h : scope.Within scope') (name : String) (position : Nat) :
    scope.Within (scope'.define name position) := by
  intro other hother
  rw [isDefined_define, h other hother, Bool.or_true]

end Scope.Within

/-! ## Checks in a larger scope -/

namespace Check

open Segment

/-- A check is in order if its names are known and it has no fault of arity. -/
theorem faults_eq_nil_iff (check : Check) (scope : Scope) :
    check.faults scope = [] ↔
      (check.names.all fun name => scope.isDefined name) = true ∧ check.arityFaults true = [] := by
  rw [faults, List.append_eq_nil_iff, readNames_eq_nil_iff]
  constructor
  · rintro ⟨hknown, harity⟩
    rw [hknown] at harity
    exact ⟨hknown, harity⟩
  · rintro ⟨hknown, harity⟩
    rw [hknown]
    exact ⟨rfl, harity⟩

variable {scope scope' : Scope}

theorem faults_eq_nil_of_within (h : scope.Within scope') {check : Check}
    (hvalid : check.faults scope = []) : check.faults scope' = [] := by
  obtain ⟨hknown, harity⟩ := (faults_eq_nil_iff check scope).mp hvalid
  apply (faults_eq_nil_iff check scope').mpr
  refine ⟨?_, harity⟩
  rw [List.all_eq_true] at hknown ⊢
  exact fun name hname => h name (hknown name hname)

theorem scopeBehind_within (h : scope.Within scope') (check : Check) :
    (check.scopeBehind scope).Within (check.scopeBehind scope') := by
  unfold scopeBehind
  cases check.target? with
  | none => exact h
  | some target => exact h.define target.1.normalized target.2

theorem within_scopeBehind (h : scope.Within scope') (check : Check) :
    scope.Within (check.scopeBehind scope') := by
  unfold scopeBehind
  cases check.target? with
  | none => exact h
  | some target => exact h.define_right target.1.normalized target.2

/-- In a larger scope a valid run stays valid. -/
theorem run_valid_of_within (h : scope.Within scope') {checks : List Check}
    (hvalid : (run scope checks).diagnostics = []) : (run scope' checks).diagnostics = [] := by
  induction checks generalizing scope scope' with
  | nil => rfl
  | cons check rest ih =>
      rw [run, Verdict.diagnostics_report, List.append_eq_nil_iff] at hvalid ⊢
      exact ⟨faults_eq_nil_of_within h hvalid.1, ih (scopeBehind_within h check) hvalid.2⟩

theorem run_scope_within (h : scope.Within scope') (checks : List Check) :
    (run scope checks).scope.Within (run scope' checks).scope := by
  induction checks generalizing scope scope' with
  | nil => exact h
  | cons check rest ih => exact ih (scopeBehind_within h check)

/-- A run forgets no name. -/
theorem within_run_scope (h : scope.Within scope') (checks : List Check) :
    scope.Within (run scope' checks).scope := by
  induction checks generalizing scope' with
  | nil => exact h
  | cons check rest ih => exact ih (within_scopeBehind h check)

end Check

/-! ## Sentences in a larger scope -/

variable {scope scope' : Scope}

theorem isValid_validate_of_within (h : scope.Within scope') {tokens : List Token}
    (hvalid : (validate tokens scope).isValid = true) :
    (validate tokens scope').isValid = true := by
  rw [Verdict.isValid, List.isEmpty_iff, validate, Verdict.ofPlaced_eq_run] at hvalid ⊢
  exact Check.run_valid_of_within h hvalid

theorem scope_analyze_within (h : scope.Within scope') (source : String) :
    (analyze source scope).2.Within (analyze source scope').2 := by
  show (Verdict.ofPlaced scope _).scope.Within (Verdict.ofPlaced scope' _).scope
  rw [Verdict.ofPlaced_eq_run, Verdict.ofPlaced_eq_run]
  exact Check.run_scope_within h _

theorem within_scope_analyze (h : scope.Within scope') (source : String) :
    scope.Within (analyze source scope').2 := by
  show scope.Within (Verdict.ofPlaced scope' _).scope
  rw [Verdict.ofPlaced_eq_run]
  exact Check.within_run_scope h _

/-- Names that are defined in front of a sentence can only help it. -/
theorem success_ofAnalysis_of_within (h : scope.Within scope') (options : Options)
    {source : String}
    (hsuccess : (Outcome.ofAnalysis options (analyze source scope).1).success = true) :
    (Outcome.ofAnalysis options (analyze source scope').1).success = true := by
  unfold Outcome.ofAnalysis at hsuccess ⊢
  dsimp only at hsuccess ⊢
  split
  · rename_i hskip
    rw [if_pos hskip] at hsuccess
    exact hsuccess
  · rename_i hskip
    rw [if_neg hskip, Analysis.isValid, Bool.and_eq_true] at hsuccess
    rw [Analysis.isValid, Bool.and_eq_true]
    exact ⟨hsuccess.1, isValid_validate_of_within h hsuccess.2⟩

theorem within_scope_analyzeAll (h : scope.Within scope') (sources : List String) :
    scope.Within (analyzeAll sources scope').2 := by
  induction sources generalizing scope' with
  | nil => exact h
  | cons source rest ih => exact ih (within_scope_analyze h source)

theorem analyzeAll_append (front back : List String) (scope : Scope) :
    (analyzeAll (front ++ back) scope).1 =
      (analyzeAll front scope).1 ++ (analyzeAll back (analyzeAll front scope).2).1 := by
  induction front generalizing scope with
  | nil => rfl
  | cons source rest ih => exact congrArg (List.cons _) (ih _)

namespace Outcome

/-- A run succeeds exactly if each of its sentences does. -/
theorem success_ofSentences_iff (options : Options) (sentences : List String) :
    (ofSentences options sentences).success = true ↔
      ∀ analysis ∈ (analyzeAll sentences Scope.empty).1,
        (ofAnalysis options analysis).success = true := by
  unfold ofSentences
  induction (analyzeAll sentences Scope.empty).1 with
  | nil => simp [empty]
  | cons analysis rest ih =>
      rw [List.map_cons, List.foldr_cons, success_append, Bool.and_eq_true, ih,
        List.forall_mem_cons]

theorem forall_success_of_within (h : scope.Within scope') (options : Options)
    {sources : List String}
    (hsuccess : ∀ analysis ∈ (analyzeAll sources scope).1,
      (ofAnalysis options analysis).success = true) :
    ∀ analysis ∈ (analyzeAll sources scope').1, (ofAnalysis options analysis).success = true := by
  induction sources generalizing scope scope' with
  | nil => simp [analyzeAll]
  | cons source rest ih =>
      obtain ⟨hfirst, hrest⟩ := List.forall_mem_cons.mp hsuccess
      exact List.forall_mem_cons.mpr ⟨success_ofAnalysis_of_within h options hfirst,
        ih (scope_analyze_within h source) hrest⟩

/-- Sentences that succeed from the start also succeed behind others that do. -/
theorem success_ofSentences_append {options : Options} {front back : List String}
    (hfront : (ofSentences options front).success = true)
    (hback : (ofSentences options back).success = true) :
    (ofSentences options (front ++ back)).success = true := by
  rw [success_ofSentences_iff] at hfront hback ⊢
  rw [analyzeAll_append]
  have hscope := within_scope_analyzeAll (Scope.Within.empty Scope.empty) front
  exact List.forall_mem_append.mpr ⟨hfront, forall_success_of_within hscope options hback⟩

/-! ## Files -/

/-- The lines of two texts with a line break between them are the lines of the
one and then those of the other. -/
theorem sentencesOf_append (front back : String) :
    sentencesOf (front ++ "\n" ++ back) = sentencesOf front ++ sentencesOf back := by
  have hlist : (front ++ "\n" ++ back).toList = front.toList ++ '\n' :: back.toList := by
    simp
  unfold sentencesOf List.splitOn
  rw [hlist, List.splitOnP_append_cons _ _ (by rfl)]
  simp only [List.map_append, List.filter_append]

theorem ofFile_toUTF8 (options : Options) (name text : String) :
    ofFile options name (some text.toUTF8) = ofSentences options (sentencesOf text) := by
  have hdecode : String.fromUTF8? text.toUTF8 = some text := by
    rw [String.fromUTF8?, dif_pos (String.toUTF8_eq_toByteArray ▸ text.isValidUTF8)]
    rfl
  rw [ofFile, Option.bind_some, hdecode]

theorem exitStatus_eq_zero_iff (outcome : Outcome) :
    outcome.exitStatus = 0 ↔ outcome.success = true := by
  unfold exitStatus
  split <;> simp_all

end Outcome

/-- More definitions never invalidate a sentence.  Therefore two files that
succeed also do so one behind the other, with a line break between them. -/
theorem valid_files_join :
    (∀ (tokens : List Token) (scope scope' : Scope),
      (∀ name, scope.isDefined name = true → scope'.isDefined name = true) →
        (validate tokens scope).isValid = true → (validate tokens scope').isValid = true) ∧
    ∀ (options : Options) (first second joined front back : String),
      (Outcome.ofFile options first (some front.toUTF8)).exitStatus = 0 →
        (Outcome.ofFile options second (some back.toUTF8)).exitStatus = 0 →
          (Outcome.ofFile options joined (some (front ++ "\n" ++ back).toUTF8)).exitStatus = 0 := by
  refine ⟨fun tokens scope scope' h => isValid_validate_of_within h, ?_⟩
  intro options first second joined front back hfront hback
  rw [Outcome.exitStatus_eq_zero_iff, Outcome.ofFile_toUTF8] at hfront hback ⊢
  rw [Outcome.sentencesOf_append]
  exact Outcome.success_ofSentences_append hfront hback

/-- The second file defines a name that the first one has left defined. -/
theorem valid_files_join_of_shared_name :
    (validate (Transcript.ofSource "suma x y 1").tokens (Scope.empty.define "x" 0)).isValid =
        true ∧
      (validate (Transcript.ofSource "suma x y 1").tokens
        ((Scope.empty.define "x" 3).define "y" 1)).isValid = true ∧
      (Outcome.ofFile ⟨false, false⟩ "uno" (some "x = 2\nsuma x y 1".toUTF8)).exitStatus = 0 ∧
      (Outcome.ofFile ⟨false, false⟩ "dos" (some "x = 3, eleva x a 2\r\n".toUTF8)).exitStatus = 0 ∧
      (Outcome.ofFile ⟨false, false⟩ "tres"
        (some ("x = 2\nsuma x y 1" ++ "\n" ++ "x = 3, eleva x a 2\r\n").toUTF8)).exitStatus = 0 := by
  have hvalid : (validate (Transcript.ofSource "suma x y 1").tokens
      (Scope.empty.define "x" 0)).isValid = true := by
    decide +kernel
  have hscope : ∀ name, (Scope.empty.define "x" 0).isDefined name = true →
      ((Scope.empty.define "x" 3).define "y" 1).isDefined name = true := by
    intro name hname
    simp at hname
    simp [hname]
  have hfirst : (Outcome.ofFile ⟨false, false⟩ "uno"
      (some "x = 2\nsuma x y 1".toUTF8)).exitStatus = 0 := by
    rw [Outcome.exitStatus_eq_zero_iff, Outcome.ofFile_toUTF8]
    decide +kernel
  have hsecond : (Outcome.ofFile ⟨false, false⟩ "dos"
      (some "x = 3, eleva x a 2\r\n".toUTF8)).exitStatus = 0 := by
    rw [Outcome.exitStatus_eq_zero_iff, Outcome.ofFile_toUTF8]
    decide +kernel
  exact ⟨hvalid, valid_files_join.1 _ _ _ hscope hvalid, hfirst, hsecond,
    valid_files_join.2 _ "uno" "dos" "tres" _ _ hfirst hsecond⟩

end SpokenArithmetic
