import SpokenArithmetic.Analysis
import SpokenArithmetic.Proofs.Judgement
import SpokenArithmetic.Proofs.Spelling

/-!
# Reading and validation on definitions

Validation finds assignments and names by its own scan.  For a sentence that
can be read this is the same as to go through the trees: a name has to be
defined before the sentence, or be the target of an earlier statement.  The
scope behind each statement is kept as the invariant
(`Reading.Clause.scope_ofPlaced`), since it defines the names of the scope
before the sentence and the targets up to there, and no others.
-/

namespace SpokenArithmetic

/-- The name that a fault says is not defined. -/
def Diagnostic.undefinedName? : Diagnostic → Option String
  | undefinedVariable name => some name
  | _ => none

/-- The names that some trees read without a definition, from left to right.
The targets of the trees before them are `earlier`. -/
def unknownNames (scope : Scope) (earlier : List String) : List Tree → List String
  | [] => []
  | tree :: rest =>
      tree.names.filter (fun name => !(scope.isDefined name || earlier.contains name)) ++
        unknownNames scope (tree.target?.toList ++ earlier) rest

/-- The names directly in front of a sign of assignment, each with the position
of its token. -/
def targets : List Placed → List (String × Nat)
  | [] => []
  | (token, position) :: rest =>
      if token.kind = .identifier ∧ (Verdict.assigned? rest).isSome then
        (token.written, position) :: targets rest
      else
        targets rest

/-- The scope after some definitions in order. -/
def Scope.defineAll (scope : Scope) (definitions : List (String × Nat)) : Scope :=
  definitions.foldl (fun scope entry => scope.define entry.1 entry.2) scope

namespace Scope

@[simp] theorem defineAll_nil (scope : Scope) : scope.defineAll [] = scope := rfl

theorem defineAll_cons (scope : Scope) (entry : String × Nat) (rest : List (String × Nat)) :
    scope.defineAll (entry :: rest) = (scope.define entry.1 entry.2).defineAll rest := rfl

theorem defineAll_append (scope : Scope) (front rest : List (String × Nat)) :
    scope.defineAll (front ++ rest) = (scope.defineAll front).defineAll rest := by
  simp [defineAll, List.foldl_append]

theorem isDefined_defineAll (scope : Scope) (definitions : List (String × Nat)) (name : String) :
    (scope.defineAll definitions).isDefined name =
      (scope.isDefined name || (definitions.map Prod.fst).contains name) := by
  induction definitions generalizing scope with
  | nil => simp
  | cons entry rest ih =>
      rw [defineAll_cons, ih, isDefined_define, List.map_cons, List.contains_cons,
        BEq.comm (a := name), Bool.or_assoc, Bool.or_left_comm]

/-- Definitions leave every other name as it is. -/
theorem definition?_defineAll_of_notMem (scope : Scope) {definitions : List (String × Nat)}
    {name : String} (h : name ∉ definitions.map Prod.fst) :
    (scope.defineAll definitions).definition? name = scope.definition? name := by
  induction definitions generalizing scope with
  | nil => rfl
  | cons entry rest ih =>
      rw [List.map_cons, List.mem_cons, not_or] at h
      rw [defineAll_cons, ih _ h.2, definition?_define, if_neg (Ne.symm h.1)]

end Scope

/-! ## Targets -/

theorem targets_append_comma {separator : Token} (h : separator.kind = .comma) (position : Nat)
    (front rest : List Placed) :
    targets (front ++ (separator, position) :: rest) = targets front ++ targets rest := by
  induction front with
  | nil => simp [targets, h]
  | cons placed front ih =>
      obtain ⟨token, place⟩ := placed
      simp only [List.cons_append, targets, Verdict.assigned?_append_comma h, Option.isSome_map, ih]
      split <;> rfl

namespace Reading

theorem Inner.targets_eq_nil {tokens : List Token} (h : Inner tokens) (position : Nat) :
    targets (tokens.zipIdx position) = [] := by
  induction tokens generalizing position with
  | nil => rfl
  | cons token tokens ih =>
      have hrest := (inner_cons.mp h).2
      rw [List.zipIdx_cons, targets, Verdict.assigned?_of_inner hrest]
      simpa using ih hrest (position + 1)

theorem Phrase.target?_eq_none {tokens : List Token} {tree : Tree} (h : Phrase tokens tree) :
    tree.target? = none := by
  cases h with
  | @leaf token filler tree hleaf hfiller =>
      unfold Token.leaf? at hleaf
      split at hleaf <;> cases hleaf <;> rfl
  | continued => rfl
  | unary => rfl
  | binary => rfl

/-- The target of a statement is its first token. -/
theorem Clause.targets_eq {tokens : List Token} {tree : Tree} (h : Clause Phrase tokens tree)
    (position : Nat) :
    targets (tokens.zipIdx position) = tree.target?.toList.map fun name => (name, position) := by
  cases h with
  | @assignment target sign tokens value htarget hsign hvalue =>
      have hinner := hvalue.inner.targets_eq_nil (position + 1 + 1)
      simp [List.zipIdx_cons, targets, Verdict.assigned?, htarget, hsign, hinner, Tree.target?]
  | operation h =>
      rw [h.inner.targets_eq_nil, h.target?_eq_none]
      rfl

/-- The scope behind a statement defines its target as well. -/
theorem Clause.scope_ofPlaced {tokens : List Token} {tree : Tree} (h : Clause Phrase tokens tree)
    (hverbatim : ∀ token ∈ tokens, token.Verbatim) (scope : Scope) (position : Nat) :
    (Verdict.ofPlaced scope (tokens.zipIdx position)).scope =
      scope.defineAll (targets (tokens.zipIdx position)) := by
  obtain ⟨outside, inside, hjudged⟩ := h.exists_judged scope position
  have hscope : (Verdict.ofPlaced scope (tokens.zipIdx position)).scope =
      (Stage.mk (tokens.zipIdx position) scope).behind :=
    congrArg Verdict.scope hjudged.verdict
  rw [hscope, h.targets_eq]
  cases h with
  | @assignment target sign tokens value htarget hsign hvalue =>
      have hname : target.normalized = target.written := hverbatim target (by simp) htarget
      simp [Stage.behind, Stage.assignment?, Verdict.assigned?, List.zipIdx_cons, htarget, hsign,
        Tree.target?, Scope.defineAll, hname]
  | operation h =>
      rw [Stage.behind_of_inner h.inner, h.target?_eq_none]
      rfl

/-- The scope behind a sentence defines the targets of all its statements. -/
theorem Joined.scope_ofPlaced {tokens : List Token} {trees : List Tree}
    (h : Joined Phrase tokens trees) (hverbatim : ∀ token ∈ tokens, token.Verbatim)
    (scope : Scope) (position : Nat) :
    (Verdict.ofPlaced scope (tokens.zipIdx position)).scope =
      scope.defineAll (targets (tokens.zipIdx position)) := by
  induction h generalizing scope position with
  | nil => simp [targets]
  | last hclause => exact hclause.scope_ofPlaced hverbatim scope position
  | @cons separator tokens rest tree trees hclause hseparator _ ih =>
      have hfront := hclause.scope_ofPlaced
        (fun token htoken => hverbatim token (by simp [htoken])) scope position
      have hrest := ih (fun token htoken => hverbatim token (by simp [htoken]))
        (scope.defineAll (targets (tokens.zipIdx position))) (position + tokens.length + 1)
      rw [List.zipIdx_append, List.zipIdx_cons, Verdict.ofPlaced_append_comma hseparator,
        Verdict.scope_report, hfront, hrest, targets_append_comma hseparator,
        Scope.defineAll_append]

theorem Joined.targets_eq {tokens : List Token} {trees : List Tree}
    (h : Joined Phrase tokens trees) (position : Nat) :
    (targets (tokens.zipIdx position)).map Prod.fst = trees.filterMap Tree.target? := by
  induction h generalizing position with
  | nil => rfl
  | @last tokens tree hclause =>
      rw [hclause.targets_eq]
      cases htarget : tree.target? <;> simp [htarget]
  | @cons separator tokens rest tree trees hclause hseparator _ ih =>
      rw [List.zipIdx_append, List.zipIdx_cons, targets_append_comma hseparator,
        List.map_append, ih, hclause.targets_eq]
      cases htarget : tree.target? <;> simp [htarget]

end Reading

/-! ## Unknown names -/

namespace Segment

theorem undefinedNames_readNames (scope : Scope) (names : List String) :
    (readNames scope names).filterMap Diagnostic.undefinedName? =
      names.filter fun name => !scope.isDefined name := by
  rw [readNames_eq_map, List.filterMap_map]
  exact List.filterMap_some

/-- Missing operands stand in the place of unknown names only where there are
none. -/
theorem undefinedNames_faultsAtEnd (scope : Scope) (names : List String) (tally : Tally) :
    (faultsAtEnd scope names tally).filterMap Diagnostic.undefinedName? =
      names.filter fun name => !scope.isDefined name := by
  unfold faultsAtEnd
  split
  · rename_i hnames
    have hread := undefinedNames_readNames scope names
    rw [List.isEmpty_iff.mp hnames] at hread
    have hmissing : tally.missing.filterMap Diagnostic.undefinedName? = [] := by
      unfold Tally.missing
      split
      · split <;> rfl
      · rfl
    rw [hmissing, ← hread]
    rfl
  · exact undefinedNames_readNames scope names

end Segment

/-- In a statement those names of its tree are found that are not defined in
front of it. -/
theorem Judged.undefinedNames {tree : Tree} {stage : Stage} {outside inside : List String}
    (h : Judged tree stage outside inside) :
    stage.verdict.diagnostics.filterMap Diagnostic.undefinedName? =
      tree.names.filter fun name => !stage.scope.isDefined name := by
  rw [h.verdict, List.filterMap_append, h.faults, Segment.undefinedNames_readNames,
    Segment.undefinedNames_faultsAtEnd, ← h.names, List.filter_append]

/-- The names found in a sentence, where the scope in front of it defines what
some scope before does and the targets of earlier statements. -/
theorem Reading.Joined.undefinedNames {tokens : List Token} {trees : List Tree}
    (h : Joined Phrase tokens trees) (hverbatim : ∀ token ∈ tokens, token.Verbatim)
    {before scope : Scope} {earlier : List String}
    (hscope : ∀ name, scope.isDefined name = (before.isDefined name || earlier.contains name))
    (position : Nat) :
    (Verdict.ofPlaced scope (tokens.zipIdx position)).diagnostics.filterMap
        Diagnostic.undefinedName? =
      unknownNames before earlier trees := by
  induction h generalizing scope earlier position with
  | nil => simp [unknownNames]
  | @last tokens tree hclause =>
      obtain ⟨outside, inside, hjudged⟩ := hclause.exists_judged scope position
      have hnames := hjudged.undefinedNames
      simp only [hscope] at hnames
      rw [unknownNames, unknownNames, List.append_nil]
      exact hnames
  | @cons separator tokens rest tree trees hclause hseparator _ ih =>
      obtain ⟨outside, inside, hjudged⟩ := hclause.exists_judged scope position
      have hnames := hjudged.undefinedNames
      simp only [hscope] at hnames
      -- The statement hands on the invariant with its own target in addition.
      have hbehind : ∀ name,
          (Verdict.ofPlaced scope (tokens.zipIdx position)).scope.isDefined name =
            (before.isDefined name || (tree.target?.toList ++ earlier).contains name) := by
        intro name
        rw [hclause.scope_ofPlaced (fun token htoken => hverbatim token (by simp [htoken])),
          Scope.isDefined_defineAll, hclause.targets_eq, hscope, List.contains_append,
          Bool.or_assoc, Bool.or_comm (earlier.contains name)]
        simp
      have hrest := ih (fun token htoken => hverbatim token (by simp [htoken])) hbehind
        (position + tokens.length + 1)
      rw [List.zipIdx_append, List.zipIdx_cons, Verdict.ofPlaced_append_comma hseparator,
        Verdict.diagnostics_report, List.filterMap_append, hrest, unknownNames]
      exact congrArg (· ++ _) hnames

/-- For every sentence that can be read, the names that validation does not
know are those of its trees that are defined neither before the sentence nor
by an earlier statement.  Behind the sentence the targets of its trees are
defined at their positions, and everything else is as it was. -/
theorem definitions_agree {source : String} {scope : Scope} {trees : List Tree}
    (h : (analyze source scope).1.structured = .ok trees) :
    (analyze source scope).1.diagnostics.filterMap Diagnostic.undefinedName? =
        unknownNames scope [] trees ∧
      (targets (analyze source scope).1.transcript.tokens.zipIdx).map Prod.fst =
        trees.filterMap Tree.target? ∧
      (analyze source scope).2 =
        scope.defineAll (targets (analyze source scope).1.transcript.tokens.zipIdx) ∧
      ∀ name, name ∉ trees.filterMap Tree.target? →
        (analyze source scope).2.definition? name = scope.definition? name := by
  have hjoined := Reading.parse_eq_ok_iff.mp h
  have hverbatim := Transcript.verbatim_ofSource source
  have htargets := hjoined.targets_eq 0
  have hscope := hjoined.scope_ofPlaced hverbatim scope 0
  refine ⟨?_, htargets, hscope, ?_⟩
  · exact hjoined.undefinedNames hverbatim (by simp) 0
  · intro name hname
    rw [← htargets] at hname
    have hdefinition := scope.definition?_defineAll_of_notMem hname
    rw [← hscope] at hdefinition
    exact hdefinition

/-- The value of an assignment does not know the target, and the next statement
does. -/
theorem definitions_agree_of_own_name :
    (analyze "x = suma x y z, suma x y w" (Scope.empty.define "z" 3)).1.structured =
        .ok [.assignment "x" (.binary .add (.identifier "x") (.identifier "z")),
          .binary .add (.identifier "x") (.identifier "w")] ∧
      (analyze "x = suma x y z, suma x y w" (Scope.empty.define "z" 3)).1.diagnostics.filterMap
        Diagnostic.undefinedName? = ["x", "w"] ∧
      (analyze "x = suma x y z, suma x y w" (Scope.empty.define "z" 3)).2 =
        (Scope.empty.define "z" 3).define "x" 0 := by
  have hstructured :
      (analyze "x = suma x y z, suma x y w" (Scope.empty.define "z" 3)).1.structured =
        .ok [.assignment "x" (.binary .add (.identifier "x") (.identifier "z")),
          .binary .add (.identifier "x") (.identifier "w")] := by
    decide +kernel
  obtain ⟨hnames, -, hscope, -⟩ := definitions_agree hstructured
  have htargets : targets (analyze "x = suma x y z, suma x y w"
      (Scope.empty.define "z" 3)).1.transcript.tokens.zipIdx = [("x", 0)] := by
    decide +kernel
  refine ⟨hstructured, ?_, ?_⟩
  · rw [hnames]
    decide +kernel
  · rw [hscope, htargets]
    rfl

end SpokenArithmetic
