import Mathlib.Data.List.Perm.Subperm
import SpokenArithmetic.Analysis
import SpokenArithmetic.Proofs.Checks
import SpokenArithmetic.Proofs.Spelling

/-!
# The tokens that the faults are about

Every fault that validation reports is about one token, and its text is the text
of that token.  Two faults are never about the same token, with one exception.
An unknown name that no operator asks for breaks its segment, and it is reported
as unknown and as one operand too many (`Check.surplusNames`).  Such a token is
reported twice in a row, and every other token once or not at all
(`count_payload_le`).
-/

namespace SpokenArithmetic

/-- Whether a token reads a name that is not defined. -/
def Scope.lacks (scope : Scope) (placed : Placed) : Bool :=
  placed.1.kind == .identifier && !scope.isDefined placed.1.normalized

/-- Whether each of some faults is about one of the tokens.  No token has two
faults, but for those of `twice`, which have one more. -/
def Attributed (faults : List Diagnostic) (tokens twice : List Placed) : Prop :=
  ∃ once : List Placed, once.Subperm tokens ∧ twice.Subperm once ∧
    (faults.map Diagnostic.payload).Perm ((once ++ twice).map fun placed => placed.1.written)

namespace Attributed

variable {faults faults' : List Diagnostic} {tokens tokens' twice twice' : List Placed}

theorem nil (tokens : List Placed) : Attributed [] tokens [] :=
  ⟨[], List.nil_subperm, List.nil_subperm, List.Perm.refl _⟩

/-- One fault is about one token. -/
theorem singleton {fault : Diagnostic} {placed : Placed} (hmem : placed ∈ tokens)
    (hpayload : fault.payload = placed.1.written) : Attributed [fault] tokens [] := by
  refine ⟨[placed], List.singleton_subperm_iff.mpr hmem, List.nil_subperm, ?_⟩
  simp [hpayload]

theorem append (h : Attributed faults tokens twice) (h' : Attributed faults' tokens' twice') :
    Attributed (faults ++ faults') (tokens ++ tokens') (twice ++ twice') := by
  obtain ⟨once, htokens, htwice, hperm⟩ := h
  obtain ⟨once', htokens', htwice', hperm'⟩ := h'
  refine ⟨once ++ once', htokens.append htokens', htwice.append htwice', ?_⟩
  rw [List.map_append]
  refine (hperm.append hperm').trans ?_
  -- Only the two lists in the middle change places.
  rw [← List.map_append]
  apply List.Perm.map
  rw [List.append_assoc, List.append_assoc]
  apply List.Perm.append_left
  exact List.perm_append_comm_assoc twice once' twice'

theorem mono (h : Attributed faults tokens twice) (hsub : tokens.Subperm tokens') :
    Attributed faults tokens' twice := by
  obtain ⟨once, htokens, htwice, hperm⟩ := h
  exact ⟨once, htokens.trans hsub, htwice, hperm⟩

/-- There are no more faults with a text than tokens with that text. -/
theorem countP_le (h : Attributed faults tokens twice) (text : String) :
    faults.countP (fun fault => fault.payload == text) ≤
      tokens.countP (fun placed => placed.1.written == text) +
        twice.countP (fun placed => placed.1.written == text) := by
  obtain ⟨once, htokens, -, hperm⟩ := h
  have hcount := hperm.countP_eq (fun payload => payload == text)
  rw [List.countP_map, List.countP_map, List.countP_append] at hcount
  have honce := htokens.countP_le fun placed => placed.1.written == text
  calc faults.countP (fun fault => fault.payload == text)
      = once.countP (fun placed => placed.1.written == text) +
          twice.countP (fun placed => placed.1.written == text) := hcount
    _ ≤ _ := Nat.add_le_add_right honce _

end Attributed

/-! ## One check -/

theorem Token.payload_of_breach? {token : Token} {fault : Diagnostic}
    (h : token.breach? = some fault) : fault.payload = token.written := by
  unfold breach? at h
  cases hkind : token.kind <;> simp only [hkind, Option.some.injEq, reduceCtorEq] at h
  all_goals
    rw [← h]
    rfl

/-- The unknown names among some tokens are reported with their own texts. -/
theorem map_payload_readNames {scope : Scope} {tokens : List Placed}
    (h : ∀ placed ∈ tokens, placed.1.Verbatim) :
    (Segment.readNames scope (namesOf tokens)).map Diagnostic.payload =
      (tokens.filter scope.lacks).map fun placed => placed.1.written := by
  rw [Segment.readNames_eq_map, List.map_map]
  induction tokens with
  | nil => rfl
  | cons placed rest ih =>
      obtain ⟨hplaced, hrest⟩ := List.forall_mem_cons.mp h
      have hbehind := ih hrest
      unfold namesOf at hbehind ⊢
      rw [List.filterMap_cons, List.filter_cons]
      by_cases hkind : placed.1.kind = .identifier
      · have hname : placed.1.name? = some placed.1.normalized := if_pos hkind
        have hpayload : (Diagnostic.payload ∘ Diagnostic.undefinedVariable) placed.1.normalized =
            placed.1.written := hplaced hkind
        by_cases hdefined : scope.isDefined placed.1.normalized = true
        · simp [hname, Scope.lacks, hkind, hdefined, hbehind]
        · simp [hname, Scope.lacks, hkind, hdefined, hbehind, ← hpayload]
      · have hname : placed.1.name? = none := if_neg hkind
        simp [hname, Scope.lacks, hkind, hbehind]

/-- A segment that breaks has its fault at its last token. -/
theorem Extent.exists_last_of_faults_ne_nil {tally : Tally} {tokens : List Placed}
    (h : (ofTokens tally tokens).ending.faults ≠ []) :
    ∃ front last fault, (ofTokens tally tokens).taken = front ++ [last] ∧
      last.1.breach? = some fault ∧ (ofTokens tally tokens).ending.faults = [fault] := by
  induction tokens generalizing tally with
  | nil => exact absurd rfl h
  | cons placed rest ih =>
      cases hending : tally.ending? placed.1 with
      | some ending =>
          rw [ofTokens_of_ending hending] at h ⊢
          rcases Tally.comma_or_breach_of_ending? hending with hcomma | ⟨fault, hbreach, hfault⟩
          · have hcomplete : ending = .complete := by
              simpa [Tally.ending?, hcomma] using hending.symm
            rw [hcomplete] at h
            exact absurd rfl h
          · exact ⟨[], placed, fault, rfl, hbreach, hfault⟩
      | none =>
          rw [ofTokens_of_goesOn hending] at h ⊢
          obtain ⟨front, last, fault, htaken, hlast⟩ := ih h
          exact ⟨placed :: front, last, fault, congrArg (placed :: ·) htaken, hlast⟩

namespace Check

open Segment

/-- The tokens of a check, with its target in front of them. -/
def region (check : Check) : List Placed :=
  check.target?.toList ++ check.tokens

/-- Whether a check that breaks has its fault at its last token. -/
def Breaks (check : Check) : Prop :=
  check.ending.faults ≠ [] →
    ∃ front last fault, check.tokens = front ++ [last] ∧ last.1.breach? = some fault ∧
      check.ending.faults = [fault]

/-- The token that breaks a check, if it is an unknown name. -/
def surplusName (check : Check) (scope : Scope) : List Placed :=
  if check.ending.faults = [] then [] else check.tokens.getLast?.toList.filter scope.lacks

/-- The unknown names that break some checks, each in the scope that the checks
before it leave. -/
def surplusNames (scope : Scope) : List Check → List Placed
  | [] => []
  | check :: rest => check.surplusName scope ++ surplusNames (check.scopeBehind scope) rest

/-- An assignment without a value has its fault at its target. -/
theorem attributed_emptiness {check : Check}
    (h : ∀ target ∈ check.target?, target.1.Verbatim ∧ target.1.kind = .identifier) :
    Attributed check.emptiness check.target?.toList [] := by
  unfold emptiness
  cases htarget : check.target? with
  | none => exact .nil _
  | some target =>
      obtain ⟨hverbatim, hkind⟩ := h target htarget
      dsimp only
      split
      · exact .singleton (List.mem_singleton_self _) (hverbatim hkind)
      · exact .nil _

/-- Operands are missing at the last operator. -/
theorem attributed_missing (check : Check) : Attributed check.tally.missing check.tokens [] := by
  by_cases hneeded : check.tally.needed = 0
  · rw [Tally.missing_of_needed_eq_zero hneeded]
    exact .nil _
  · obtain ⟨text, hlast, hmissing⟩ := Tally.exists_missing_count hneeded
    obtain ⟨token, htoken, rfl⟩ := Option.map_eq_some_iff.mp hlast
    obtain ⟨placed, hplaced, rfl⟩ :=
      List.mem_map.mp (List.mem_filter.mp (List.mem_of_getLast? htoken)).1
    have hfault : check.tally.missing = [.missingOperands placed.1.written] := hmissing
    rw [hfault]
    exact .singleton hplaced rfl

/-- Each unknown name is reported at its own token. -/
theorem attributed_readNames {scope : Scope} {tokens : List Placed}
    (h : ∀ placed ∈ tokens, placed.1.Verbatim) :
    Attributed (readNames scope (namesOf tokens)) tokens [] := by
  refine ⟨tokens.filter scope.lacks, List.filter_sublist.subperm, List.nil_subperm, ?_⟩
  rw [map_payload_readNames h, List.append_nil]

/-- The token that breaks a check is at fault, and as an unknown name it is so
once more. -/
theorem attributed_breach {scope : Scope} {front : List Placed} {last : Placed}
    {fault : Diagnostic} (hbreach : last.1.breach? = some fault)
    (h : ∀ placed ∈ front ++ [last], placed.1.Verbatim) :
    Attributed (readNames scope (namesOf (front ++ [last])) ++ [fault]) (front ++ [last])
      ([last].filter scope.lacks) := by
  obtain ⟨hfront, hlast⟩ := List.forall_mem_append.mp h
  have hpayload := Token.payload_of_breach? hbreach
  have hread : (readNames scope (namesOf [last])).map Diagnostic.payload =
      ([last].filter scope.lacks).map fun placed => placed.1.written :=
    map_payload_readNames hlast
  have hbreaking : Attributed (readNames scope (namesOf [last]) ++ [fault]) [last]
      ([last].filter scope.lacks) := by
    refine ⟨[last], List.Subperm.refl _, List.filter_sublist.subperm, ?_⟩
    rw [List.map_append, hread, List.map_append, List.map_singleton, hpayload]
    exact List.perm_append_comm
  have hnames : namesOf (front ++ [last]) = namesOf front ++ namesOf [last] :=
    List.filterMap_append
  rw [hnames, readNames_append, List.append_assoc]
  exact (attributed_readNames hfront).append hbreaking

/-- The unknown names of a check are other tokens than the one that breaks it,
unless this is an unknown name itself. -/
theorem attributed_faults {check : Check} (hbreaks : check.Breaks)
    (htarget : ∀ target ∈ check.target?, target.1.kind = .identifier)
    (hverbatim : ∀ placed ∈ check.region, placed.1.Verbatim) (scope : Scope) :
    Attributed (check.faults scope) check.region (check.surplusName scope) := by
  obtain ⟨htargets, htokens⟩ := List.forall_mem_append.mp hverbatim
  have hemptiness : Attributed check.emptiness check.target?.toList [] :=
    attributed_emptiness fun target hmem =>
      ⟨htargets target (Option.mem_toList.mpr hmem), htarget target hmem⟩
  -- The fault of the target is put in front, where the target is.
  suffices hnames : Attributed (readNames scope check.names ++
      if (check.names.all fun name => scope.isDefined name) && check.ending == .complete then
        check.tally.missing
      else check.ending.faults) check.tokens (check.surplusName scope) by
    have h := hnames.append hemptiness
    rw [List.append_nil, List.append_assoc] at h
    exact h.mono List.perm_append_comm.subperm
  by_cases hending : check.ending.faults = []
  · rw [surplusName, if_pos hending, hending]
    split
    · rename_i hknown
      rw [Bool.and_eq_true] at hknown
      rw [(readNames_eq_nil_iff scope check.names).mpr hknown.1, List.nil_append]
      exact attributed_missing check
    · rw [List.append_nil]
      exact attributed_readNames htokens
  · obtain ⟨front, last, fault, hsplit, hbreach, hfault⟩ := hbreaks hending
    have hcomplete : (check.ending == .complete) = false := by
      apply beq_eq_false_iff_ne.mpr
      intro h
      exact hending (by rw [h]; rfl)
    rw [surplusName, if_neg hending, hcomplete, Bool.and_false, hfault, names, hsplit,
      List.getLast?_concat]
    exact attributed_breach hbreach (hsplit ▸ htokens)

/-- Every fault of a run is about a token of its checks. -/
theorem attributed_run {checks : List Check} (hbreaks : ∀ check ∈ checks, check.Breaks)
    (htarget : ∀ check ∈ checks, ∀ target ∈ check.target?, target.1.kind = .identifier)
    (hverbatim : ∀ placed ∈ checks.flatMap region, placed.1.Verbatim) (scope : Scope) :
    Attributed (run scope checks).diagnostics (checks.flatMap region)
      (surplusNames scope checks) := by
  induction checks generalizing scope with
  | nil => exact .nil _
  | cons check rest ih =>
      rw [List.flatMap_cons] at hverbatim ⊢
      obtain ⟨hcheck, hrest⟩ := List.forall_mem_append.mp hverbatim
      have hfirst := attributed_faults (hbreaks check List.mem_cons_self)
        (htarget check List.mem_cons_self) hcheck scope
      have hbehind := ih (fun other hmem => hbreaks other (List.mem_cons_of_mem _ hmem))
        (fun other hmem => htarget other (List.mem_cons_of_mem _ hmem)) hrest
        (check.scopeBehind scope)
      exact hfirst.append hbehind

/-- An unknown name that breaks a check has two faults, one behind the other. -/
theorem faults_of_mem_surplusName {check : Check} (hbreaks : check.Breaks) {scope : Scope}
    {placed : Placed} (h : placed ∈ check.surplusName scope) :
    [.undefinedVariable placed.1.normalized, .unexpectedOperand placed.1.written] <:+:
      check.faults scope := by
  unfold surplusName at h
  split at h
  · cases h
  · rename_i hending
    obtain ⟨front, last, fault, hsplit, hbreach, hfault⟩ := hbreaks hending
    rw [hsplit, List.getLast?_concat, Option.toList_some, List.mem_filter,
      List.mem_singleton] at h
    obtain ⟨rfl, hlacks⟩ := h
    rw [Scope.lacks, Bool.and_eq_true, beq_iff_eq, Bool.not_eq_true'] at hlacks
    obtain ⟨hkind, hundefined⟩ := hlacks
    have hcomplete : (check.ending == .complete) = false := by
      apply beq_eq_false_iff_ne.mpr
      intro h
      exact hending (by rw [h]; rfl)
    have hoperand : fault = .unexpectedOperand placed.1.written := by
      rw [Token.breach?, hkind] at hbreach
      exact (Option.some.inj hbreach).symm
    have hnames : check.names = namesOf front ++ [placed.1.normalized] := by
      simp [names, hsplit, namesOf, Token.name?, hkind]
    refine ⟨readNames scope (namesOf front), check.emptiness, ?_⟩
    rw [faults, arityFaults, hcomplete, Bool.and_false, hfault, hoperand, hnames,
      readNames_append, readNames_singleton, readName, hundefined]
    simp

theorem run_of_mem_surplusNames {checks : List Check} (hbreaks : ∀ check ∈ checks, check.Breaks)
    {scope : Scope} {placed : Placed} (h : placed ∈ surplusNames scope checks) :
    [.undefinedVariable placed.1.normalized, .unexpectedOperand placed.1.written] <:+:
      (run scope checks).diagnostics := by
  induction checks generalizing scope with
  | nil => cases h
  | cons check rest ih =>
      rw [run, Verdict.diagnostics_report]
      rcases List.mem_append.mp h with hcheck | hrest
      · exact (faults_of_mem_surplusName (hbreaks check List.mem_cons_self) hcheck).trans
          (List.prefix_append _ _).isInfix
      · exact (ih (fun other hmem => hbreaks other (List.mem_cons_of_mem _ hmem)) hrest).trans
          (List.suffix_append _ _).isInfix

end Check

/-! ## The checks of a sentence -/

namespace Verdict

/-- The checks of a sentence are about tokens of the sentence, and no token
belongs to two of them. -/
theorem flatMap_region_checks (tokens : List Placed) :
    ((checks tokens).flatMap Check.region).Sublist tokens := by
  induction tokens using checks.induct with
  | case1 => simp
  | case2 token position rest hkind value hassigned extent ih =>
      obtain ⟨sign, rfl, -⟩ := exists_sign_of_assigned? hassigned
      rw [checks_cons]
      simp only [hkind, hassigned, List.flatMap_cons]
      -- The sign of assignment belongs to no check.
      have hvalue := List.Sublist.append (List.Sublist.refl extent.taken) ih
      rw [Extent.taken_append_rest] at hvalue
      exact (hvalue.cons sign).cons_cons (token, position)
  | case3 token position rest hkind hassigned ih =>
      rw [checks_cons]
      simp only [hkind, hassigned, List.flatMap_cons]
      exact ih.cons_cons (token, position)
  | case4 token position rest op hkind extent ih =>
      rw [checks_cons]
      simp only [hkind, List.flatMap_cons]
      have hsegment := List.Sublist.append (List.Sublist.refl extent.taken) ih
      rw [Extent.taken_append_rest] at hsegment
      exact hsegment
  | case5 token position rest hkind ih | case6 token position rest hkind ih
  | case7 token position rest hkind ih | case8 token position rest hkind ih
  | case9 token position rest hkind ih =>
      rw [checks_cons]
      simp only [hkind]
      exact ih.cons (token, position)

/-- A check is a name between segments or a segment, which may have a name for
its target. -/
theorem exists_of_mem_checks {tokens : List Placed} {check : Check} (h : check ∈ checks tokens) :
    (∃ placed, check = .ofName placed) ∨
      ∃ target? segment, (∀ target ∈ target?, target.1.kind = .identifier) ∧
        check = .ofExtent target? (Extent.ofTokens Tally.zero segment) := by
  induction tokens using checks.induct with
  | case1 => simp at h
  | case2 token position rest hkind value hassigned extent ih =>
      rw [checks_cons] at h
      simp only [hkind, hassigned, List.mem_cons] at h
      rcases h with rfl | h
      · refine Or.inr ⟨some (token, position), value, ?_, rfl⟩
        intro target htarget
        cases htarget
        exact hkind
      · exact ih h
  | case3 token position rest hkind hassigned ih =>
      rw [checks_cons] at h
      simp only [hkind, hassigned, List.mem_cons] at h
      exact h.elim (fun h => Or.inl ⟨_, h⟩) ih
  | case4 token position rest op hkind extent ih =>
      rw [checks_cons] at h
      simp only [hkind, List.mem_cons] at h
      rcases h with rfl | h
      · exact Or.inr ⟨none, _, by simp, rfl⟩
      · exact ih h
  | case5 token position rest hkind ih | case6 token position rest hkind ih
  | case7 token position rest hkind ih | case8 token position rest hkind ih
  | case9 token position rest hkind ih =>
      rw [checks_cons] at h
      simp only [hkind] at h
      exact ih h

theorem breaks_of_mem_checks {tokens : List Placed} {check : Check} (h : check ∈ checks tokens) :
    check.Breaks := by
  intro hne
  rcases exists_of_mem_checks h with ⟨placed, rfl⟩ | ⟨target?, segment, -, rfl⟩
  · exact absurd rfl hne
  · exact Extent.exists_last_of_faults_ne_nil hne

theorem kind_target_of_mem_checks {tokens : List Placed} {check : Check}
    (h : check ∈ checks tokens) : ∀ target ∈ check.target?, target.1.kind = .identifier := by
  rcases exists_of_mem_checks h with ⟨placed, rfl⟩ | ⟨target?, segment, htarget, rfl⟩
  · simp [Check.ofName]
  · exact htarget

end Verdict

/-- The unknown names of a sentence that no operator asks for. -/
def surplusNames (source : String) (scope : Scope) : List Placed :=
  Check.surplusNames scope (Verdict.checks (Transcript.ofSource source).tokens.zipIdx)

/-- The faults with a text are no more than the tokens with that text, if an
unknown name that no operator asks for is counted twice.  Such a name is
reported twice in a row. -/
theorem count_payload_le (source : String) (scope : Scope) :
    (∀ text, (analyze source scope).1.diagnostics.countP (fun fault => fault.payload == text) ≤
      (Transcript.ofSource source).tokens.countP (fun token => token.written == text) +
        (surplusNames source scope).countP (fun placed => placed.1.written == text)) ∧
    ∀ placed ∈ surplusNames source scope,
      [.undefinedVariable placed.1.normalized, .unexpectedOperand placed.1.written] <:+:
        (analyze source scope).1.diagnostics := by
  have hbreaks : ∀ check ∈ Verdict.checks (Transcript.ofSource source).tokens.zipIdx,
      check.Breaks := fun _ => Verdict.breaks_of_mem_checks
  have hsub := Verdict.flatMap_region_checks (Transcript.ofSource source).tokens.zipIdx
  have hverbatim : ∀ placed ∈ (Transcript.ofSource source).tokens.zipIdx, placed.1.Verbatim :=
    fun placed hmem =>
      Transcript.verbatim_ofSource source placed.1 (List.fst_mem_of_mem_zipIdx hmem)
  have hdiagnostics : (analyze source scope).1.diagnostics = (Check.run scope
      (Verdict.checks (Transcript.ofSource source).tokens.zipIdx)).diagnostics := by
    rw [← Verdict.ofPlaced_eq_run]
    rfl
  have hattributed := (Check.attributed_run hbreaks
    (fun _ => Verdict.kind_target_of_mem_checks)
    (fun placed hmem => hverbatim placed (hsub.subset hmem)) scope).mono hsub.subperm
  rw [hdiagnostics]
  refine ⟨fun text => ?_, fun placed hmem => Check.run_of_mem_surplusNames hbreaks hmem⟩
  have hcount := hattributed.countP_le text
  have htokens : (Transcript.ofSource source).tokens.zipIdx.countP
      (fun placed => placed.1.written == text) =
        (Transcript.ofSource source).tokens.countP (fun token => token.written == text) := by
    conv_rhs => rw [← List.zipIdx_map_fst 0 (Transcript.ofSource source).tokens, List.countP_map]
    rfl
  rw [htokens] at hcount
  exact hcount

/-- The unknown name at the end has two faults, and no other token has its
text. -/
theorem unknown_surplus_reported_twice :
    (analyze "suma 1 y 2 x" .empty).1.diagnostics =
        [.undefinedVariable "x", .unexpectedOperand "x"] ∧
      (Transcript.ofSource "suma 1 y 2 x").tokens.countP (fun token => token.written == "x") = 1 ∧
      ¬ (analyze "suma 1 y 2 x" .empty).1.diagnostics.countP (fun fault => fault.payload == "x") ≤
        (Transcript.ofSource "suma 1 y 2 x").tokens.countP (fun token => token.written == "x") := by
  decide +kernel

end SpokenArithmetic
