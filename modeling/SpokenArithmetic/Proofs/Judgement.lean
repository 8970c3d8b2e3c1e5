import Mathlib.Data.List.Forall2
import SpokenArithmetic.Proofs.FlatCount
import SpokenArithmetic.Proofs.Stage

/-!
# The verdict on a statement that can be read

A statement that is read as a tree is validated with at most one segment,
which ends with the statement.  In front of it there can be one operand, the
left side of an operator.  All that is then found are unknown names of the
tree, and after them the operands that the segment misses (`Judged`).
-/

namespace SpokenArithmetic
namespace Stage

/-- The target and the value of a statement that is an assignment. -/
def assignment? (stage : Stage) : Option (Placed × List Placed) :=
  match stage.statement with
  | target :: rest =>
      if target.1.kind = .identifier then
        (Verdict.assigned? rest).map fun value => (target, value)
      else
        none
  | [] => none

/-- The operation of a statement, which is the whole statement or what it
assigns. -/
def operation (stage : Stage) : List Placed :=
  match stage.assignment? with
  | some (_, value) => value
  | none => stage.statement

/-- The part of a statement over which operands are counted: the whole value of
an assignment, or what begins with the first operator. -/
def checked (stage : Stage) : List Placed :=
  match stage.assignment? with
  | some (_, value) => value
  | none => stage.statement.dropWhile fun placed => !placed.1.isOperator

/-- The checked segment of a statement. -/
def segment (stage : Stage) : Segment :=
  Segment.ofTokens stage.scope stage.checked

/-- The scope behind a statement, where an assignment has defined its target. -/
def behind (stage : Stage) : Scope :=
  match stage.assignment? with
  | some ((target, position), _) => stage.scope.define target.normalized position
  | none => stage.scope

/-- One if the operation of a statement begins with an operator, and otherwise
zero. -/
def opening (stage : Stage) : Nat :=
  if Token.opensWithOperator (stage.operation.map Prod.fst) then 1 else 0

/-- The text of the last operator of a statement. -/
def lastOperator? (stage : Stage) : Option String :=
  Tally.lastOperatorOf (stage.statement.map Prod.fst)

end Stage

/-! ## The end of a segment -/

namespace Segment

open Grammar Reading

/-- The faults of a segment with some names in it, where what is missing counts
only if all the names are known. -/
def faultsAtEnd (scope : Scope) (names : List String) (tally : Tally) : List Diagnostic :=
  if (readNames scope names).isEmpty then tally.missing else readNames scope names

theorem ofTokens_of_scan {scope : Scope} {tokens : List Placed} {names : List String}
    {tally : Tally}
    (h : scan scope Tally.zero tokens = report (readNames scope names) ⟨[], tally, []⟩) :
    ofTokens scope tokens = ⟨faultsAtEnd scope names tally, tally, []⟩ := by
  unfold ofTokens faultsAtEnd
  dsimp only
  rw [h]
  simp only [report, List.append_nil]
  split <;> rfl

/-- The segment that begins where an operation does. -/
theorem ofTokens_of_phrase {tokens : List Token} {tree : Tree} (h : Phrase tokens tree)
    (scope : Scope) (position : Nat) :
    ofTokens scope (tokens.zipIdx position) =
      ⟨faultsAtEnd scope tree.names (Tally.zero.count tokens), Tally.zero.count tokens, []⟩ := by
  have hscan := h.scan_append scope (show Tally.zero.isFull = false from rfl) position []
  rw [List.append_nil] at hscan
  exact ofTokens_of_scan hscan

/-- The segment that begins with the sign between two operands. -/
theorem ofTokens_of_right {sign : Token} {op : Operator} {filler back : List Token}
    {right : Tree} (hsign : sign.kind = .operator op) (hfiller : Filler filler)
    (hright : Phrase back right) (scope : Scope) (position : Nat) :
    ofTokens scope ((sign :: (filler ++ back)).zipIdx position) =
      ⟨faultsAtEnd scope right.names (Tally.zero.count (sign :: (filler ++ back))),
        Tally.zero.count (sign :: (filler ++ back)), []⟩ := by
  have hopen := Tally.isFull_of_needed_pos
    (Tally.needed_operator_pos Tally.zero op sign.written)
  have hscan := hright.scan_append scope hopen (position + 1 + filler.length) []
  have hcount : Tally.zero.count (sign :: (filler ++ back)) =
      (Tally.zero.operator op sign.written).count back := by
    rw [Tally.count_cons, Tally.count_append, Tally.count_filler hfiller,
      Tally.after_of_operator hsign]
  rw [List.append_nil] at hscan
  refine ofTokens_of_scan ?_
  rw [List.zipIdx_cons, List.zipIdx_append, scan_of_operator hsign, scan_filler_append hfiller,
    hscan, hcount]
  rfl

end Segment

/-! ## Steps of validation outside segments -/

namespace Verdict

open Grammar Reading

theorem ofPlaced_of_leaf? {token : Token} {tree : Tree} (h : token.leaf? = some tree)
    (scope : Scope) (position : Nat) {rest : List Placed} (hrest : assigned? rest = none) :
    ofPlaced scope ((token, position) :: rest) =
      report (Segment.readNames scope tree.names) (ofPlaced scope rest) := by
  rw [ofPlaced_cons]
  unfold Token.leaf? at h
  split at h
  · rename_i hkind
    cases h
    simp [hkind, Tree.names]
  · rename_i hkind
    cases h
    simp [hkind, hrest, Tree.names, Segment.readNames_singleton]
  · cases h

theorem ofPlaced_of_operator {sign : Token} {op : Operator} (h : sign.kind = .operator op)
    (scope : Scope) (position : Nat) (rest : List Placed) :
    ofPlaced scope ((sign, position) :: rest) =
      report (Segment.ofTokens scope ((sign, position) :: rest)).faults
        (ofPlaced scope (Segment.ofTokens scope ((sign, position) :: rest)).rest) := by
  rw [ofPlaced_cons, h]

theorem ofPlaced_of_isConnector {token : Token} (h : token.isConnector = true) (scope : Scope)
    (position : Nat) (rest : List Placed) :
    ofPlaced scope ((token, position) :: rest) = ofPlaced scope rest := by
  unfold Token.isConnector at h
  rw [ofPlaced_cons]
  cases hkind : token.kind <;> simp_all [Kind.isConnector]

theorem ofPlaced_filler_append {filler : List Token} (h : Filler filler) (scope : Scope)
    (position : Nat) (rest : List Placed) :
    ofPlaced scope (filler.zipIdx position ++ rest) = ofPlaced scope rest :=
  h.eq_of_skip (ofPlaced scope)
    (fun _ position rest htoken => ofPlaced_of_isConnector htoken scope position rest)
    position rest

/-- Among the tokens of an operation there is no sign of assignment. -/
theorem assigned?_of_inner {tokens : List Token} (h : Inner tokens) (position : Nat) :
    assigned? (tokens.zipIdx position) = none := by
  cases tokens with
  | nil => rfl
  | cons token tokens =>
      have hkind := (inner_cons.mp h).1.2
      simp [assigned?, List.zipIdx_cons, hkind]

/-- A segment that begins with an operator and ends with the statement is all
that there is to validate. -/
theorem ofPlaced_of_segment {sign : Token} {op : Operator} (h : sign.kind = .operator op)
    {scope : Scope} {tokens : List Token} {position : Nat} {faults : List Diagnostic}
    {tally : Tally}
    (hsegment : Segment.ofTokens scope ((sign :: tokens).zipIdx position) = ⟨faults, tally, []⟩) :
    ofPlaced scope ((sign :: tokens).zipIdx position) = ⟨faults, scope⟩ := by
  rw [List.zipIdx_cons] at hsegment ⊢
  rw [ofPlaced_of_operator h, hsegment, ofPlaced_nil, report, List.append_nil]

end Verdict

/-! ## Statements that are read -/

namespace Stage

open Grammar Reading

theorem assignment?_of_inner {tokens : List Token} (h : Inner tokens) (scope : Scope)
    (position : Nat) : (Stage.mk (tokens.zipIdx position) scope).assignment? = none := by
  cases tokens with
  | nil => rfl
  | cons token tokens =>
      have hassigned := Verdict.assigned?_of_inner (inner_cons.mp h).2 (position + 1)
      simp [assignment?, List.zipIdx_cons, hassigned]

/-- A bare operation is checked from its first operator on. -/
theorem checked_of_inner {tokens : List Token} (h : Inner tokens) (scope : Scope)
    (position : Nat) :
    (Stage.mk (tokens.zipIdx position) scope).checked =
      (tokens.zipIdx position).dropWhile fun placed => !placed.1.isOperator := by
  rw [checked, assignment?_of_inner h]

theorem opening_of_inner {tokens : List Token} (h : Inner tokens) (scope : Scope)
    (position : Nat) :
    (Stage.mk (tokens.zipIdx position) scope).opening =
      if Token.opensWithOperator tokens then 1 else 0 := by
  rw [opening, operation, assignment?_of_inner h, List.zipIdx_map_fst]

theorem behind_of_inner {tokens : List Token} (h : Inner tokens) (scope : Scope)
    (position : Nat) : (Stage.mk (tokens.zipIdx position) scope).behind = scope := by
  rw [behind, assignment?_of_inner h]

theorem lastOperator?_zipIdx (tokens : List Token) (scope : Scope) (position : Nat) :
    (Stage.mk (tokens.zipIdx position) scope).lastOperator? = Tally.lastOperatorOf tokens := by
  rw [lastOperator?, List.zipIdx_map_fst]

theorem dropWhile_of_leaf? {token : Token} {tree : Tree} {filler : List Token}
    (hleaf : token.leaf? = some tree) (hfiller : Filler filler) (position position' : Nat)
    (rest : List Placed) :
    ((token, position) :: (filler.zipIdx position' ++ rest)).dropWhile
        (fun placed => !placed.1.isOperator) =
      rest.dropWhile fun placed => !placed.1.isOperator := by
  have hskip := hfiller.eq_of_skip
    (fun tokens => tokens.dropWhile fun placed => !placed.1.isOperator)
    (fun token position rest htoken => by
      rw [List.dropWhile_cons_of_pos (by simpa using Token.not_isOperator_of_isConnector htoken)])
    position' rest
  rw [List.dropWhile_cons_of_pos (by simpa using Token.not_isOperator_of_leaf? hleaf)]
  exact hskip

end Stage

/-- The verdict on a statement that is read as `tree`.  Its names are split in
two at the start of the checked segment. -/
structure Judged (tree : Tree) (stage : Stage) (outside inside : List String) : Prop where
  names : outside ++ inside = tree.names
  verdict : stage.verdict =
    ⟨Segment.readNames stage.scope outside ++ stage.segment.faults, stage.behind⟩
  faults : stage.segment.faults =
    Segment.faultsAtEnd stage.scope inside (Tally.zero.count (stage.checked.map Prod.fst))
  needed : (Tally.zero.count (stage.checked.map Prod.fst)).needed + stage.opening = tree.demand
  lastOperator : Tally.lastOperatorOf (stage.checked.map Prod.fst) = stage.lastOperator?

namespace Judged

open Grammar Reading

variable {stage : Stage} {tree : Tree} {outside inside : List String}

/-- What has to be known of the checked part of a statement. -/
theorem of_checked (tokens : List Token) (position : Nat)
    (hchecked : stage.checked = tokens.zipIdx position)
    (hsegment : Segment.ofTokens stage.scope (tokens.zipIdx position) =
      ⟨Segment.faultsAtEnd stage.scope inside (Tally.zero.count tokens),
        Tally.zero.count tokens, []⟩)
    (hnames : outside ++ inside = tree.names)
    (hverdict : stage.verdict =
      ⟨Segment.readNames stage.scope outside ++
        Segment.faultsAtEnd stage.scope inside (Tally.zero.count tokens), stage.behind⟩)
    (hneeded : (Tally.zero.count tokens).needed + stage.opening = tree.demand)
    (hlast : Tally.lastOperatorOf tokens = stage.lastOperator?) :
    Judged tree stage outside inside := by
  have htokens : stage.checked.map Prod.fst = tokens := by
    rw [hchecked, List.zipIdx_map_fst]
  have hfaults : stage.segment.faults =
      Segment.faultsAtEnd stage.scope inside (Tally.zero.count tokens) := by
    rw [Stage.segment, hchecked, hsegment]
  constructor
  case names => exact hnames
  case verdict => rw [hverdict, hfaults]
  case faults => rw [hfaults, htokens]
  case needed => rw [htokens, hneeded]
  case lastOperator => rw [htokens, hlast]

/-- The three ways in which the checked segment can end. -/
theorem faults_cases (h : Judged tree stage outside inside) :
    (stage.segment.faults ≠ [] ∧
      stage.segment.faults = Segment.readNames stage.scope inside) ∨
    (stage.segment.faults = [] ∧ stage.opening = tree.demand) ∨
    (∃ text, stage.segment.faults = [.missingOperands text] ∧
      stage.lastOperator? = some text ∧ stage.opening < tree.demand) := by
  have hfaults := h.faults
  unfold Segment.faultsAtEnd at hfaults
  by_cases hnames : Segment.readNames stage.scope inside = []
  · rw [hnames] at hfaults
    have hneeded := h.needed
    by_cases hzero : (Tally.zero.count (stage.checked.map Prod.fst)).needed = 0
    · right; left
      refine ⟨?_, by omega⟩
      rw [hfaults]
      exact Tally.missing_of_needed_eq_zero hzero
    · right; right
      obtain ⟨text, htext, hmissing⟩ := Tally.exists_missing_count hzero
      refine ⟨text, ?_, ?_, by omega⟩
      · rw [hfaults]
        exact hmissing
      · rw [← h.lastOperator, htext]
  · left
    rw [if_neg (by simpa using hnames)] at hfaults
    exact ⟨hfaults ▸ hnames, hfaults⟩

theorem of_assignment {target sign : Token} {tokens : List Token} {value : Tree}
    (htarget : target.kind = .identifier) (hsign : sign.kind = .assign)
    (hvalue : Phrase tokens value) (scope : Scope) (position : Nat) :
    Judged (.assignment target.written value)
      ⟨(target :: sign :: tokens).zipIdx position, scope⟩ [] value.names := by
  have hassignment :
      (Stage.mk ((target :: sign :: tokens).zipIdx position) scope).assignment? =
        some ((target, position), tokens.zipIdx (position + 1 + 1)) := by
    simp [Stage.assignment?, Verdict.assigned?, List.zipIdx_cons, htarget, hsign]
  have hsegment := Segment.ofTokens_of_phrase hvalue scope (position + 1 + 1)
  refine of_checked tokens (position + 1 + 1) ?checked hsegment rfl ?verdict ?needed ?last
  case checked => rw [Stage.checked, hassignment]
  case verdict =>
    rw [Stage.verdict, Stage.behind, hassignment, List.zipIdx_cons, List.zipIdx_cons,
      Verdict.ofPlaced_cons]
    -- The value is not empty, so that no expression is missing.
    have hterms : (Tally.zero.count tokens).terms ≠ 0 := Nat.ne_of_gt (hvalue.terms_count_pos _)
    simp [htarget, Verdict.assigned?, hsign, hsegment, Verdict.assignmentFaults, hterms,
      Verdict.report]
  case needed =>
    rw [Stage.opening, Stage.operation, hassignment, List.zipIdx_map_fst]
    exact hvalue.needed_count_zero
  case last =>
    have hname := Token.not_isOperator_of_kind htarget rfl
    have hassign := Token.not_isOperator_of_kind hsign rfl
    rw [Stage.lastOperator?_zipIdx, Tally.lastOperatorOf_cons_of_not hname,
      Tally.lastOperatorOf_cons_of_not hassign]

/-- A bare operation that begins with an operator is checked as a whole. -/
theorem of_operator {sign : Token} {op : Operator} {tokens : List Token} {tree : Tree}
    (hsign : sign.kind = .operator op) (h : Phrase (sign :: tokens) tree) (scope : Scope)
    (position : Nat) :
    Judged tree ⟨(sign :: tokens).zipIdx position, scope⟩ [] tree.names := by
  have hsegment := Segment.ofTokens_of_phrase h scope position
  refine of_checked (sign :: tokens) position ?checked hsegment rfl ?verdict ?needed ?last
  case checked =>
    rw [Stage.checked_of_inner h.inner]
    exact List.dropWhile_cons_of_neg (by simpa using Token.isOperator_of_operator hsign)
  case verdict =>
    rw [Stage.behind_of_inner h.inner]
    exact Verdict.ofPlaced_of_segment hsign hsegment
  case needed =>
    rw [Stage.opening_of_inner h.inner]
    exact h.needed_count_zero
  case last => rw [Stage.lastOperator?_zipIdx]

/-- A single operand is not checked at all. -/
theorem of_leaf? {token : Token} {filler : List Token} {tree : Tree}
    (hleaf : token.leaf? = some tree) (hfiller : Filler filler) (scope : Scope)
    (position : Nat) :
    Judged tree ⟨(token :: filler).zipIdx position, scope⟩ tree.names [] := by
  have hinner := (Phrase.leaf hleaf hfiller).inner
  have hassigned := Verdict.assigned?_of_inner (inner_cons.mp hinner).2 (position + 1)
  refine of_checked [] 0 ?checked rfl (List.append_nil _) ?verdict ?needed ?last
  case checked =>
    have hdrop := Stage.dropWhile_of_leaf? hleaf hfiller position (position + 1) []
    rw [List.append_nil] at hdrop
    rw [Stage.checked_of_inner hinner]
    exact hdrop
  case verdict =>
    have hskip := Verdict.ofPlaced_filler_append hfiller scope (position + 1) []
    rw [List.append_nil] at hskip
    rw [Stage.verdict, Stage.behind_of_inner hinner, List.zipIdx_cons,
      Verdict.ofPlaced_of_leaf? hleaf scope position hassigned, hskip, Verdict.ofPlaced_nil]
    rfl
  case needed =>
    have hopens := Token.not_opensWithOperator_of_leaf? hleaf filler
    rw [Stage.opening_of_inner hinner, if_neg hopens, Tree.demand_of_leaf? hleaf]
    rfl
  case last =>
    have hskip := Tally.lastOperatorOf_filler_append hfiller []
    rw [List.append_nil] at hskip
    rw [Stage.lastOperator?_zipIdx,
      Tally.lastOperatorOf_cons_of_not (Token.not_isOperator_of_leaf? hleaf), hskip]

/-- The left side of an operator stands in front of the segment. -/
theorem of_continued {token sign : Token} {op : Operator} {filler filler' back : List Token}
    {left right : Tree} (hleaf : token.leaf? = some left) (hfiller : Filler filler)
    (hsign : sign.kind = .operator op) (hfiller' : Filler filler') (hright : Phrase back right)
    (scope : Scope) (position : Nat) :
    Judged (.binary op left right)
      ⟨(token :: (filler ++ sign :: (filler' ++ back))).zipIdx position, scope⟩
      left.names right.names := by
  have hinner := (Phrase.continued hleaf hfiller hsign hfiller' hright).inner
  have hassigned := Verdict.assigned?_of_inner (inner_cons.mp hinner).2 (position + 1)
  have hsegment := Segment.ofTokens_of_right hsign hfiller' hright scope
    (position + 1 + filler.length)
  refine of_checked (sign :: (filler' ++ back)) (position + 1 + filler.length) ?checked hsegment
    rfl ?verdict ?needed ?last
  case checked =>
    rw [Stage.checked_of_inner hinner, List.zipIdx_cons, List.zipIdx_append,
      Stage.dropWhile_of_leaf? hleaf hfiller]
    exact List.dropWhile_cons_of_neg (by simpa using Token.isOperator_of_operator hsign)
  case verdict =>
    rw [Stage.verdict, Stage.behind_of_inner hinner, List.zipIdx_cons,
      Verdict.ofPlaced_of_leaf? hleaf scope position hassigned, List.zipIdx_append,
      Verdict.ofPlaced_filler_append hfiller, Verdict.ofPlaced_of_segment hsign hsegment]
    rfl
  case needed =>
    have hopens := Token.not_opensWithOperator_of_leaf? hleaf (filler ++ sign :: (filler' ++ back))
    -- The left side is not in the count, so that one of what the sign asks for is left over.
    have hcount := hright.needed_count
      (Or.inl (Tally.needed_operator_pos Tally.zero op sign.written))
    have harity := op.arity_eq
    rw [Stage.opening_of_inner hinner, if_neg hopens, Tally.count_cons, Tally.count_append,
      Tally.count_filler hfiller', Tally.after_of_operator hsign]
    simp only [Tree.demand, Tree.demand_of_leaf? hleaf]
    rw [Tally.needed_operator, show Tally.zero.needed = 0 from rfl] at hcount
    omega
  case last =>
    rw [Stage.lastOperator?_zipIdx,
      Tally.lastOperatorOf_cons_of_not (Token.not_isOperator_of_leaf? hleaf),
      Tally.lastOperatorOf_filler_append hfiller]

end Judged

namespace Reading

/-- Every statement that is read is validated as said. -/
theorem Clause.exists_judged {tokens : List Token} {tree : Tree}
    (h : Clause Phrase tokens tree) (scope : Scope) (position : Nat) :
    ∃ outside inside, Judged tree ⟨tokens.zipIdx position, scope⟩ outside inside := by
  cases h with
  | assignment htarget hsign hvalue =>
      exact ⟨_, _, .of_assignment htarget hsign hvalue scope position⟩
  | operation h =>
      cases h with
      | leaf hleaf hfiller => exact ⟨_, _, .of_leaf? hleaf hfiller scope position⟩
      | continued hleaf hfiller hsign hfiller' hright =>
          exact ⟨_, _, .of_continued hleaf hfiller hsign hfiller' hright scope position⟩
      | unary hsign harity hfiller hoperand =>
          exact ⟨_, _, .of_operator hsign (.unary hsign harity hfiller hoperand) scope position⟩
      | binary hsign harity hfiller hleft hright hback =>
          exact ⟨_, _, .of_operator hsign (.binary hsign harity hfiller hleft hright hback)
            scope position⟩

/-- What stands between the commas of a sentence is what its trees are read
from, so that a statement holds no comma and is not empty. -/
theorem Clause.statements_eq {tokens : List Token} {tree : Tree}
    (h : Clause Phrase tokens tree) (position : Nat) :
    statements (tokens.zipIdx position) = [tokens.zipIdx position] := by
  refine statements_of_forall_ne_comma ?_ ?_
  · intro placed hplaced
    exact h.kind_ne_comma placed.1 (List.fst_mem_of_mem_zipIdx hplaced)
  · intro hnil
    exact h.ne_nil (List.zipIdx_eq_nil_iff.mp hnil)

/-- The trees of a sentence and its statements belong together one by one. -/
theorem Joined.forall₂_judged {tokens : List Token} {trees : List Tree}
    (h : Joined Phrase tokens trees) (scope : Scope) (position : Nat) :
    List.Forall₂ (fun tree stage => ∃ outside inside, Judged tree stage outside inside) trees
      (Stage.ofStatements scope (statements (tokens.zipIdx position))) := by
  induction h generalizing scope position with
  | nil => exact .nil
  | last hclause =>
      rw [hclause.statements_eq]
      exact .cons (hclause.exists_judged scope position) .nil
  | @cons separator tokens rest tree trees hclause hseparator _ ih =>
      rw [List.zipIdx_append, List.zipIdx_cons, statements_append_comma hseparator,
        hclause.statements_eq]
      exact .cons (hclause.exists_judged scope position) (ih _ _)

end Reading
end SpokenArithmetic
