import SpokenArithmetic.Proofs.Clause
import SpokenArithmetic.Segment

/-!
# The flat count over a phrase

A segment is counted without the trees.  An operator asks for as many operands
as its arity says, wherever it stands, and it never counts as an operand
itself.  So in front of an operand that is asked for, an operation asks for
more than it takes, by one for each inner node of its tree that has only one
operand or whose operator has arity two.  This is `Phrase.needed_count`.

The count can therefore never be full in front of an operand of a phrase, and
no phrase breaks a segment.  What is found in it are the unknown names of its
tree (`Phrase.scan_append`).
-/

namespace SpokenArithmetic

/-- The number of inner nodes of a tree that have one operand, or two and an
operator other than the root.  By so much its operators ask for more operands
than the tree has behind its first one. -/
def Tree.demand : Tree → Nat
  | .number _ _ => 0
  | .identifier _ => 0
  | .unary _ operand => operand.demand + 1
  | .binary op left right => left.demand + right.demand + if op = .root then 0 else 1
  | .assignment _ value => value.demand

theorem Operator.arity_eq (op : Operator) : op.arity = 1 + if op = .root then 0 else 1 := by
  cases op <;> decide

theorem Tree.demand_of_leaf? {token : Token} {tree : Tree} (h : token.leaf? = some tree) :
    tree.demand = 0 := by
  unfold Token.leaf? at h
  split at h <;> cases h <;> rfl

namespace Token

open Reading

/-- Whether a token is an operator. -/
def isOperator (token : Token) : Bool :=
  token.operator?.isSome

/-- Whether an operator stands first among some tokens. -/
def opensWithOperator (tokens : List Token) : Bool :=
  tokens.head?.any isOperator

theorem isOperator_of_operator {token : Token} {op : Operator} (h : token.kind = .operator op) :
    token.isOperator = true := by
  simp [isOperator, operator?_of_operator h]

theorem not_isOperator_of_kind {token : Token} {kind : Kind} (h : token.kind = kind)
    (hkind : kind.operator? = none) : ¬token.isOperator = true := by
  simp [isOperator, operator?, h, hkind]

theorem not_isOperator_of_leaf? {token : Token} {tree : Tree} (h : token.leaf? = some tree) :
    ¬token.isOperator = true :=
  not_isOperator_of_kind rfl (operator?_of_leaf? h)

theorem not_isOperator_of_isConnector {token : Token} (h : token.isConnector = true) :
    ¬token.isOperator = true := by
  refine not_isOperator_of_kind rfl ?_
  unfold isConnector at h
  cases hkind : token.kind <;> simp_all [Kind.isConnector, Kind.operator?]

theorem opensWithOperator_of_operator {token : Token} {op : Operator}
    (h : token.kind = .operator op) (rest : List Token) :
    opensWithOperator (token :: rest) = true :=
  isOperator_of_operator h

theorem not_opensWithOperator_of_leaf? {token : Token} {tree : Tree}
    (h : token.leaf? = some tree) (rest : List Token) :
    ¬opensWithOperator (token :: rest) = true :=
  not_isOperator_of_leaf? h

end Token

/-! ## Counting tokens that do not end a segment -/

namespace Tally

open Grammar Reading

/-- The count after one more token that does not end the segment. -/
def after (tally : Tally) (token : Token) : Tally :=
  match token.kind with
  | .operator op => tally.operator op token.written
  | .number | .identifier => tally.operand
  | .sequence | .preposition | .comma | .assign => tally

/-- The count after some tokens that do not end the segment. -/
def count (tally : Tally) (tokens : List Token) : Tally :=
  tokens.foldl after tally

@[simp] theorem count_nil (tally : Tally) : tally.count [] = tally := rfl

theorem count_cons (tally : Tally) (token : Token) (rest : List Token) :
    tally.count (token :: rest) = (tally.after token).count rest := rfl

@[simp] theorem count_append (tally : Tally) (tokens rest : List Token) :
    tally.count (tokens ++ rest) = (tally.count tokens).count rest := by
  simp [count, List.foldl_append]

theorem after_of_leaf? {token : Token} {tree : Tree} (h : token.leaf? = some tree)
    (tally : Tally) : tally.after token = tally.operand := by
  rcases kind_of_leaf? h with hkind | hkind <;> simp [after, hkind]

theorem after_of_operator {sign : Token} {op : Operator} (h : sign.kind = .operator op)
    (tally : Tally) : tally.after sign = tally.operator op sign.written := by
  simp [after, h]

theorem after_of_isConnector {token : Token} (h : token.isConnector = true) (tally : Tally) :
    tally.after token = tally := by
  unfold Token.isConnector at h
  cases hkind : token.kind <;> simp_all [after, Kind.isConnector]

theorem count_filler {filler : List Token} (h : Filler filler) (tally : Tally) :
    tally.count filler = tally := by
  induction filler with
  | nil => rfl
  | cons token filler ih =>
      obtain ⟨htoken, hfiller⟩ := filler_cons.mp h
      rw [count_cons, after_of_isConnector htoken]
      exact ih hfiller

/-- An operand, an operator behind it, and what stands to the right of both. -/
theorem count_continued {token sign : Token} {op : Operator} {filler filler' : List Token}
    {left : Tree} (hleaf : token.leaf? = some left) (hfiller : Filler filler)
    (hsign : sign.kind = .operator op) (hfiller' : Filler filler') (tally : Tally)
    (back : List Token) :
    tally.count (token :: (filler ++ sign :: (filler' ++ back))) =
      (tally.operand.operator op sign.written).count back := by
  rw [count_cons, count_append, count_filler hfiller, count_cons, count_append,
    count_filler hfiller', after_of_leaf? hleaf, after_of_operator hsign]

@[simp] theorem needed_operator (tally : Tally) (op : Operator) (text : String) :
    (tally.operator op text).needed = tally.needed + op.arity := rfl

@[simp] theorem needed_operand (tally : Tally) : tally.operand.needed = tally.needed - 1 := rfl

theorem needed_operator_pos (tally : Tally) (op : Operator) (text : String) :
    0 < (tally.operator op text).needed := by
  have harity := op.arity_eq
  rw [needed_operator]
  omega

theorem isFull_of_needed_pos {tally : Tally} (h : 0 < tally.needed) : tally.isFull = false := by
  simp [isFull, Nat.ne_of_gt h]

theorem terms_le_count (tally : Tally) (tokens : List Token) :
    tally.terms ≤ (tally.count tokens).terms := by
  induction tokens generalizing tally with
  | nil => exact Nat.le_refl _
  | cons token tokens ih =>
      refine Nat.le_trans ?_ (ih (tally.after token))
      unfold after
      split
      · exact Nat.le_succ _
      · exact Nat.le_succ _
      · exact Nat.le_succ _
      all_goals exact Nat.le_refl _

/-! ## The last operator -/

/-- The text of the last operator among some tokens. -/
def lastOperatorOf (tokens : List Token) : Option String :=
  (tokens.filter Token.isOperator).getLast?.map (·.written)

theorem lastOperatorOf_cons (token : Token) (rest : List Token) :
    lastOperatorOf (token :: rest) =
      (lastOperatorOf rest).or (if token.isOperator then some token.written else none) := by
  unfold lastOperatorOf
  by_cases h : token.isOperator = true
  · rw [List.filter_cons_of_pos h, List.getLast?_cons, if_pos h]
    cases (rest.filter Token.isOperator).getLast? <;> rfl
  · rw [List.filter_cons_of_neg h, if_neg h, Option.or_none]

theorem lastOperatorOf_cons_of_not {token : Token} (h : ¬token.isOperator = true)
    (rest : List Token) : lastOperatorOf (token :: rest) = lastOperatorOf rest := by
  rw [lastOperatorOf_cons, if_neg h, Option.or_none]

theorem lastOperatorOf_filler_append {filler : List Token} (h : Filler filler)
    (rest : List Token) : lastOperatorOf (filler ++ rest) = lastOperatorOf rest := by
  induction filler with
  | nil => rfl
  | cons token filler ih =>
      obtain ⟨htoken, hfiller⟩ := filler_cons.mp h
      rw [List.cons_append,
        lastOperatorOf_cons_of_not (Token.not_isOperator_of_isConnector htoken)]
      exact ih hfiller

/-- The count keeps the text of the last operator that it has met. -/
theorem lastOperator_count (tally : Tally) (tokens : List Token) :
    (tally.count tokens).lastOperator = (lastOperatorOf tokens).or tally.lastOperator := by
  induction tokens generalizing tally with
  | nil => rfl
  | cons token tokens ih =>
      rw [count_cons, ih, lastOperatorOf_cons, Option.or_assoc]
      congr 1
      unfold after Token.isOperator Token.operator?
      cases token.kind <;> rfl

/-- Nothing is needed as long as no operator has been met. -/
theorem needed_count_eq_zero {tally : Tally} (h : tally.lastOperator = none → tally.needed = 0)
    {tokens : List Token} (hnone : (tally.count tokens).lastOperator = none) :
    (tally.count tokens).needed = 0 := by
  induction tokens generalizing tally with
  | nil => exact h hnone
  | cons token tokens ih =>
      refine ih ?_ hnone
      -- Only an operator makes something needed, and it is kept from then on.
      intro hafter
      unfold after at hafter ⊢
      cases hkind : token.kind with
      | operator op => simp [hkind, operator] at hafter
      | number =>
          simp only [hkind] at hafter ⊢
          rw [needed_operand, h hafter]
      | identifier =>
          simp only [hkind] at hafter ⊢
          rw [needed_operand, h hafter]
      | sequence | preposition | comma | assign =>
          simp only [hkind] at hafter ⊢
          exact h hafter

theorem missing_of_needed_eq_zero {tally : Tally} (h : tally.needed = 0) :
    tally.missing = [] := by
  unfold missing
  cases tally.lastOperator with
  | none => rfl
  | some text => exact if_pos h

/-- What is missing after some tokens is missing at their last operator. -/
theorem exists_missing_count {tokens : List Token} (h : (zero.count tokens).needed ≠ 0) :
    ∃ text, lastOperatorOf tokens = some text ∧
      (zero.count tokens).missing = [.missingOperands text] := by
  have hlast := lastOperator_count zero tokens
  rw [show zero.lastOperator = none from rfl, Option.or_none] at hlast
  cases htext : lastOperatorOf tokens with
  | none =>
      rw [htext] at hlast
      exact absurd (needed_count_eq_zero (fun _ => rfl) hlast) h
  | some text =>
      refine ⟨text, rfl, ?_⟩
      unfold missing
      rw [hlast, htext]
      exact if_neg h

end Tally

/-! ## Counting a phrase -/

namespace Reading
namespace Phrase

open Grammar

/-- The law of the count.  Where an operand is asked for, the tokens of a
phrase answer for it and leave as much more as the tree demands.  A phrase that
begins with an operator is counted in full even where none is asked for. -/
theorem needed_count {tokens : List Token} {tree : Tree} (h : Phrase tokens tree)
    {tally : Tally} (hneeded : 0 < tally.needed ∨ Token.opensWithOperator tokens = true) :
    (tally.count tokens).needed + 1 = tally.needed + tree.demand := by
  induction h generalizing tally with
  | leaf hleaf hfiller =>
      rw [Tally.count_cons, Tally.count_filler hfiller, Tally.after_of_leaf? hleaf,
        Tree.demand_of_leaf? hleaf]
      have hpositive := hneeded.resolve_right (Token.not_opensWithOperator_of_leaf? hleaf _)
      show tally.needed - 1 + 1 = tally.needed + 0
      omega
  | @continued token sign op filler filler' back left right hleaf hfiller hsign hfiller' _ ih =>
      -- The operand in front is taken, and the sign asks for the one behind it.
      have hpositive := hneeded.resolve_right (Token.not_opensWithOperator_of_leaf? hleaf _)
      have hright := ih (Or.inl (Tally.needed_operator_pos tally.operand op sign.written))
      have harity := op.arity_eq
      rw [Tally.count_continued hleaf hfiller hsign hfiller', hright]
      simp only [Tally.needed_operator, Tally.needed_operand, Tree.demand,
        Tree.demand_of_leaf? hleaf]
      omega
  | @unary sign op filler tokens operand hsign harity hfiller _ ih =>
      -- Its one operand is asked for, and in return none is taken for the whole.
      have hoperand := ih (Or.inl (Tally.needed_operator_pos tally op sign.written))
      rw [Tally.count_cons, Tally.count_append, Tally.count_filler hfiller,
        Tally.after_of_operator hsign, hoperand]
      simp only [Tally.needed_operator, Tree.demand, harity]
      omega
  | @binary sign op filler front back left right hsign harity hfiller _ _ _ ihleft ihright =>
      -- Two operands are asked for, so one is still asked for behind the first.
      have hleft := ihleft (Or.inl (Tally.needed_operator_pos tally op sign.written))
      have hbetween : 0 < ((tally.operator op sign.written).count front).needed := by
        simp only [Tally.needed_operator, harity] at hleft
        omega
      have hright := ihright (Or.inl hbetween)
      have hroot : op ≠ .root := op.arity_eq_two_iff.mp harity
      rw [Tally.count_cons, Tally.count_append, Tally.count_append, Tally.count_filler hfiller,
        Tally.after_of_operator hsign, hright]
      simp only [Tally.needed_operator, harity] at hleft
      simp only [Tree.demand, if_neg hroot]
      omega

/-- At the start of a segment nothing is asked for, and an operand that stands
there is not counted. -/
theorem needed_count_zero {tokens : List Token} {tree : Tree} (h : Phrase tokens tree) :
    (Tally.zero.count tokens).needed + (if Token.opensWithOperator tokens then 1 else 0) =
      tree.demand := by
  by_cases hopens : Token.opensWithOperator tokens = true
  · -- The operator at the start is itself nothing that could be taken away.
    have hcount : (Tally.zero.count tokens).needed + 1 = 0 + tree.demand :=
      h.needed_count (Or.inr hopens)
    rw [if_pos hopens, hcount, Nat.zero_add]
  · rw [if_neg hopens, Nat.add_zero]
    cases h with
    | leaf hleaf hfiller =>
        rw [Tally.count_cons, Tally.count_filler hfiller, Tally.after_of_leaf? hleaf,
          Tree.demand_of_leaf? hleaf]
        rfl
    | @continued token sign op filler filler' back left right hleaf hfiller hsign hfiller' hright =>
        have hneeded := hright.needed_count
          (Or.inl (Tally.needed_operator_pos Tally.zero.operand op sign.written))
        have harity := op.arity_eq
        rw [Tally.count_continued hleaf hfiller hsign hfiller']
        simp only [Tree.demand, Tree.demand_of_leaf? hleaf]
        simp only [Tally.needed_operator, Tally.needed_operand] at hneeded
        have hzero : Tally.zero.needed = 0 := rfl
        omega
    | unary hsign => exact absurd (Token.opensWithOperator_of_operator hsign _) hopens
    | binary hsign => exact absurd (Token.opensWithOperator_of_operator hsign _) hopens

/-- A phrase holds an operator or an operand. -/
theorem terms_count_pos {tokens : List Token} {tree : Tree} (h : Phrase tokens tree)
    (tally : Tally) : 0 < (tally.count tokens).terms := by
  have hfirst : ∀ (token : Token) (rest : List Token), tally.terms < (tally.after token).terms →
      0 < (tally.count (token :: rest)).terms := by
    intro token rest hafter
    have hrest := Tally.terms_le_count (tally.after token) rest
    rw [Tally.count_cons]
    omega
  cases h with
  | leaf hleaf =>
      exact hfirst _ _ (by rw [Tally.after_of_leaf? hleaf]; exact Nat.lt_succ_self _)
  | continued hleaf =>
      exact hfirst _ _ (by rw [Tally.after_of_leaf? hleaf]; exact Nat.lt_succ_self _)
  | unary hsign =>
      exact hfirst _ _ (by rw [Tally.after_of_operator hsign]; exact Nat.lt_succ_self _)
  | binary hsign =>
      exact hfirst _ _ (by rw [Tally.after_of_operator hsign]; exact Nat.lt_succ_self _)

end Phrase
end Reading

/-! ## The segment over a phrase -/

/-- What passes over one connector passes over a run of them. -/
theorem Grammar.Filler.eq_of_skip {α : Type} {filler : List Token} (h : Filler filler)
    (result : List Placed → α)
    (hskip : ∀ (token : Token) (position : Nat) (rest : List Placed),
      token.isConnector = true → result ((token, position) :: rest) = result rest)
    (position : Nat) (rest : List Placed) :
    result (filler.zipIdx position ++ rest) = result rest := by
  induction filler generalizing position with
  | nil => rfl
  | cons token filler ih =>
      obtain ⟨htoken, hfiller⟩ := filler_cons.mp h
      rw [List.zipIdx_cons, List.cons_append, hskip token position _ htoken]
      exact ih hfiller (position + 1)

namespace Segment

open Grammar Reading

/-- The faults of reading some names in order. -/
def readNames (scope : Scope) (names : List String) : List Diagnostic :=
  names.flatMap (readName scope)

@[simp] theorem readNames_nil (scope : Scope) : readNames scope [] = [] := rfl

@[simp] theorem readNames_append (scope : Scope) (names names' : List String) :
    readNames scope (names ++ names') = readNames scope names ++ readNames scope names' :=
  List.flatMap_append

/-- Reading names finds those that are not defined, in their order. -/
theorem readNames_eq_map (scope : Scope) (names : List String) :
    readNames scope names =
      (names.filter fun name => !scope.isDefined name).map .undefinedVariable := by
  induction names with
  | nil => rfl
  | cons name names ih =>
      rw [show readNames scope (name :: names) = readName scope name ++ readNames scope names
        from rfl, ih]
      unfold readName
      by_cases h : scope.isDefined name = true <;> simp [h]

theorem readNames_singleton (scope : Scope) (name : String) :
    readNames scope [name] = readName scope name :=
  List.append_nil _

@[simp] theorem report_nil (segment : Segment) : report [] segment = segment := rfl

theorem scan_of_operator {sign : Token} {op : Operator} (h : sign.kind = .operator op)
    (scope : Scope) (tally : Tally) (position : Nat) (rest : List Placed) :
    scan scope tally ((sign, position) :: rest) =
      scan scope (tally.operator op sign.written) rest := by
  rw [scan, h]

/-- An operand goes into the count unless the count is full. -/
theorem scan_of_leaf? {token : Token} {tree : Tree} (h : token.leaf? = some tree)
    (scope : Scope) {tally : Tally} (hfull : tally.isFull = false) (position : Nat)
    (rest : List Placed) :
    scan scope tally ((token, position) :: rest) =
      report (readNames scope tree.names) (scan scope tally.operand rest) := by
  unfold Token.leaf? at h
  split at h
  · rename_i hkind
    cases h
    rw [scan, hkind]
    simp [hfull, Tree.names]
  · rename_i hkind
    cases h
    rw [scan, hkind]
    simp [hfull, Tree.names, readNames_singleton]
  · cases h

theorem scan_of_isConnector {token : Token} (h : token.isConnector = true) (scope : Scope)
    (tally : Tally) (position : Nat) (rest : List Placed) :
    scan scope tally ((token, position) :: rest) = scan scope tally rest := by
  unfold Token.isConnector at h
  rw [scan]
  cases hkind : token.kind <;> simp_all [Kind.isConnector]

theorem scan_filler_append {filler : List Token} (h : Filler filler) (scope : Scope)
    (tally : Tally) (position : Nat) (rest : List Placed) :
    scan scope tally (filler.zipIdx position ++ rest) = scan scope tally rest :=
  h.eq_of_skip (scan scope tally)
    (fun _ position rest htoken => scan_of_isConnector htoken scope tally position rest)
    position rest

end Segment

/-- A phrase does not break a segment that is not full in front of it.  What it
adds are the unknown names of its tree, and its tokens to the count. -/
theorem Reading.Phrase.scan_append {tokens : List Token} {tree : Tree} (h : Phrase tokens tree)
    (scope : Scope) {tally : Tally} (hfull : tally.isFull = false) (position : Nat)
    (rest : List Placed) :
    Segment.scan scope tally (tokens.zipIdx position ++ rest) =
      Segment.report (Segment.readNames scope tree.names)
        (Segment.scan scope (tally.count tokens) rest) := by
  induction h generalizing tally position rest with
  | leaf hleaf hfiller =>
      rw [List.zipIdx_cons, List.cons_append, Segment.scan_of_leaf? hleaf scope hfull,
        Segment.scan_filler_append hfiller, Tally.count_cons, Tally.count_filler hfiller,
        Tally.after_of_leaf? hleaf]
  | @continued token sign op filler filler' back left right hleaf hfiller hsign hfiller' _ ih =>
      have hopen := Tally.isFull_of_needed_pos
        (Tally.needed_operator_pos tally.operand op sign.written)
      simp only [List.zipIdx_cons, List.zipIdx_append, List.cons_append, List.append_assoc]
      rw [Segment.scan_of_leaf? hleaf scope hfull, Segment.scan_filler_append hfiller,
        Segment.scan_of_operator hsign, Segment.scan_filler_append hfiller', ih hopen,
        Segment.report_report, ← Segment.readNames_append,
        Tally.count_continued hleaf hfiller hsign hfiller']
      rfl
  | @unary sign op filler tokens operand hsign _ hfiller _ ih =>
      have hopen := Tally.isFull_of_needed_pos
        (Tally.needed_operator_pos tally op sign.written)
      simp only [List.zipIdx_cons, List.zipIdx_append, List.cons_append, List.append_assoc]
      rw [Segment.scan_of_operator hsign, Segment.scan_filler_append hfiller, ih hopen,
        Tally.count_cons, Tally.count_append, Tally.count_filler hfiller,
        Tally.after_of_operator hsign]
      rfl
  | @binary sign op filler front back left right hsign harity hfiller hleft _ _ ihleft ihright =>
      have hasked := Tally.needed_operator_pos tally op sign.written
      -- The count is not full behind the first operand either.
      have hbetween : 0 < ((tally.operator op sign.written).count front).needed := by
        have hcount := hleft.needed_count (Or.inl hasked)
        simp only [Tally.needed_operator, harity] at hcount
        omega
      simp only [List.zipIdx_cons, List.zipIdx_append, List.cons_append, List.append_assoc]
      rw [Segment.scan_of_operator hsign, Segment.scan_filler_append hfiller,
        ihleft (Tally.isFull_of_needed_pos hasked), ihright (Tally.isFull_of_needed_pos hbetween),
        Segment.report_report, ← Segment.readNames_append, Tally.count_cons, Tally.count_append,
        Tally.count_append, Tally.count_filler hfiller, Tally.after_of_operator hsign]
      rfl

end SpokenArithmetic
