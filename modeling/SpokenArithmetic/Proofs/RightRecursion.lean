import SpokenArithmetic.Proofs.Clause
import SpokenArithmetic.Transcript

/-!
# Operators between operands

Behind a term the reader goes round a loop.  It takes an operator, reads the
operation to its right, and looks for the next operator, which it never finds.
The operation to the right has taken all operators that follow, and so a
condition would do in place of the loop (`operationOnce_eq_operation`).

A term that is more than a single operand ends in an operation of its own and
leaves no operator either.  What stands on the left of an operator between two
operands is therefore a single operand (`isLeaf_of_round?`), and a row of such
operators is read as a tree that is nested to the right (`parse_row`).
-/

namespace SpokenArithmetic
namespace Reading

open Grammar

/-! ## The loop, round by round -/

/-- What one round of the loop makes of the tree in front of some tokens.  There
is no round where no operator follows. -/
def round? (left : Tree) (tokens : List Token) : Option (Except Fault (Reading Tree)) :=
  match skipConnectors tokens with
  | [] => none
  | sign :: after =>
      sign.operator?.map fun op =>
        (operation (skipConnectors after)).map fun right =>
          ⟨.binary op left right.value, right.rest⟩

/-- A run of the loop behind `left` that ends with `outcome`.  The list has one
entry for each round, which is the tree that the round had on its left. -/
inductive Rounds : Tree → List Token → List Tree → Except Fault (Reading Tree) → Prop where
  | stop {left : Tree} {tokens : List Token} (hround : round? left tokens = none) :
      Rounds left tokens [] (.ok ⟨left, skipConnectors tokens⟩)
  | fault {left : Tree} {tokens : List Token} {fault : Fault}
      (hround : round? left tokens = some (.error fault)) :
      Rounds left tokens [left] (.error fault)
  | again {left : Tree} {tokens : List Token} {next : Reading Tree} {lefts : List Tree}
      {outcome : Except Fault (Reading Tree)} (hround : round? left tokens = some (.ok next))
      (hrounds : Rounds next.value next.rest lefts outcome) :
      Rounds left tokens (left :: lefts) outcome

theorem round?_eq_none_iff {left : Tree} {tokens : List Token} :
    round? left tokens = none ↔ Settled (skipConnectors tokens) := by
  unfold round?
  cases hskip : skipConnectors tokens with
  | nil => exact ⟨fun _ => trivial, fun _ => rfl⟩
  | cons sign after =>
      rw [Option.map_eq_none_iff]
      exact ⟨fun h => ⟨isConnector_of_skipConnectors hskip, h⟩, fun h => h.2⟩

/-- A round ends behind an operation. -/
theorem settled_of_round? {left : Tree} {tokens : List Token} {next : Reading Tree}
    (h : round? left tokens = some (.ok next)) : Settled next.rest := by
  unfold round? at h
  split at h
  · cases h
  · obtain ⟨op, -, hround⟩ := Option.map_eq_some_iff.mp h
    obtain ⟨right, hright, rfl⟩ := exists_of_map_eq_ok hround
    show Settled right.rest
    exact settled_of_operation hright

/-- Behind a round there is no other. -/
theorem round?_of_round? {left : Tree} {tokens : List Token} {next : Reading Tree}
    (h : round? left tokens = some (.ok next)) : round? next.value next.rest = none := by
  have hsettled := settled_of_round? h
  rw [round?_eq_none_iff, skipConnectors_of_settled hsettled]
  exact hsettled

/-- The loop goes on from what a round leaves. -/
theorem chain_eq_round (left : Tree) (tokens : List Token) :
    chain left tokens =
      match round? left tokens with
      | none => .ok ⟨left, skipConnectors tokens⟩
      | some (.error fault) => .error fault
      | some (.ok next) => chain next.value next.rest := by
  rw [chain_eq, round?]
  cases skipConnectors tokens with
  | nil => rfl
  | cons sign after =>
      dsimp only
      cases sign.operator? with
      | none => rfl
      | some op =>
          dsimp only [Option.map_some]
          cases operation (skipConnectors after) <;> rfl

namespace Rounds

variable {left : Tree} {tokens : List Token} {lefts : List Tree}
  {outcome : Except Fault (Reading Tree)}

theorem outcome_eq (h : Rounds left tokens lefts outcome) : outcome = chain left tokens := by
  induction h with
  | stop hround => rw [chain_eq_round, hround]
  | fault hround => rw [chain_eq_round, hround]
  | again hround _ ih =>
      rw [chain_eq_round, hround]
      exact ih

/-- The loop goes round at most once, and then with what it has begun with. -/
theorem lefts_eq (h : Rounds left tokens lefts outcome) :
    lefts = [] ∨ lefts = [left] ∧ round? left tokens ≠ none := by
  cases h with
  | stop hround => exact Or.inl rfl
  | fault hround => exact Or.inr ⟨rfl, by simp [hround]⟩
  | again hround hrounds =>
      -- A second round would begin where an operation has ended.
      have hnone := round?_of_round? hround
      cases hrounds with
      | stop => exact Or.inr ⟨rfl, by simp [hround]⟩
      | fault hround' => simp [hnone] at hround'
      | again hround' _ => simp [hnone] at hround'

end Rounds

theorem exists_rounds (left : Tree) (tokens : List Token) :
    ∃ lefts, Rounds left tokens lefts (chain left tokens) := by
  have hrun : ∃ lefts outcome, Rounds left tokens lefts outcome := by
    cases hround : round? left tokens with
    | none => exact ⟨_, _, .stop hround⟩
    | some outcome =>
        cases outcome with
        | error fault => exact ⟨_, _, .fault hround⟩
        | ok next => exact ⟨_, _, .again hround (.stop (round?_of_round? hround))⟩
  obtain ⟨lefts, outcome, hrounds⟩ := hrun
  refine ⟨lefts, ?_⟩
  rw [← hrounds.outcome_eq]
  exact hrounds

/-- A term is a single operand, or it ends in an operation and nothing that could
go on with it is left. -/
theorem isLeaf_or_settled_of_term {tokens : List Token} {left : Reading Tree}
    (h : term tokens = .ok left) : left.value.isLeaf = true ∨ Settled left.rest := by
  cases tokens with
  | nil => simp at h
  | cons token rest =>
      rw [term_cons] at h
      cases hkind : token.kind with
      | number | identifier =>
          simp only [hkind] at h
          cases h
          exact Or.inl rfl
      | operator op =>
          simp only [hkind] at h
          cases hfirst : operation (skipConnectors rest) with
          | error fault =>
              rw [hfirst] at h
              cases h
          | ok first =>
              rw [hfirst] at h
              dsimp only at h
              split at h
              · cases h
                exact Or.inr (show Settled first.rest from settled_of_operation hfirst)
              · cases hsecond : operation (skipConnectors first.rest) with
                | error fault =>
                    rw [hsecond] at h
                    cases h
                | ok second =>
                    rw [hsecond] at h
                    cases h
                    exact Or.inr (show Settled second.rest from settled_of_operation hsecond)
      | sequence | preposition | comma | assign =>
          simp only [hkind] at h
          cases h

/-- Whatever has an operator behind it is a single operand. -/
theorem isLeaf_of_round? {tokens : List Token} {left : Reading Tree}
    (h : term tokens = .ok left) (hround : round? left.value left.rest ≠ none) :
    left.value.isLeaf = true := by
  rcases isLeaf_or_settled_of_term h with hleaf | hsettled
  · exact hleaf
  · refine absurd (round?_eq_none_iff.mpr ?_) hround
    rwa [skipConnectors_of_settled hsettled]

/-! ## A condition in place of the loop -/

mutual

/-- The reader behind `operationOnce`. -/
def operationOnceWithin (tokens : List Token) : Within tokens.length :=
  match termOnceWithin tokens with
  | .error fault => .error fault
  | .ok ⟨left, h⟩ => (chainOnceWithin left.value left.rest).weaken h
termination_by 2 * tokens.length + 1

/-- The reader behind `chainOnce`. -/
def chainOnceWithin (left : Tree) (tokens : List Token) : Within (tokens.length + 1) :=
  match h : skipConnectors tokens with
  | [] => .ok ⟨⟨left, []⟩, Nat.succ_pos _⟩
  | token :: rest =>
      have hrest : rest.length < tokens.length := by
        have := length_skipConnectors_le tokens
        rw [h, List.length_cons] at this
        omega
      match token.operator? with
      | none => .ok ⟨⟨left, token :: rest⟩, by simp only [List.length_cons]; omega⟩
      | some op =>
          have hskip := length_skipConnectors_le rest
          match operationOnceWithin (skipConnectors rest) with
          | .error fault => .error fault
          | .ok ⟨right, hright⟩ =>
              have hlength : right.rest.length < tokens.length + 1 :=
                calc
                  right.rest.length < (skipConnectors rest).length := hright
                  _ ≤ rest.length := hskip
                  _ < tokens.length + 1 := Nat.lt_succ_of_lt hrest
              -- The loop would look for another operator here.
              .ok ⟨⟨.binary op left right.value, right.rest⟩, hlength⟩
termination_by 2 * tokens.length

/-- The reader behind `termOnce`. -/
def termOnceWithin (tokens : List Token) : Within tokens.length :=
  match tokens with
  | [] => .error .unexpectedEndOfInput
  | token :: rest =>
      match token.kind with
      | .number => .ok ⟨⟨.number token.normalized token.written, rest⟩, by simp⟩
      | .identifier => .ok ⟨⟨.identifier token.normalized, rest⟩, by simp⟩
      | .operator op =>
          have hrest := length_skipConnectors_le rest
          match operationOnceWithin (skipConnectors rest) with
          | .error fault => .error fault
          | .ok ⟨first, hfirst⟩ =>
              if op.arity = 1 then
                .ok ⟨⟨.unary op first.value, first.rest⟩, by
                  simp only [List.length_cons]
                  omega⟩
              else
                have hsecond := length_skipConnectors_le first.rest
                match operationOnceWithin (skipConnectors first.rest) with
                | .error fault => .error fault
                | .ok ⟨second, h⟩ =>
                    .ok ⟨⟨.binary op first.value second.value, second.rest⟩, by
                      simp only [List.length_cons]
                      omega⟩
      | .sequence | .preposition | .comma | .assign => .error (.expectedTerm token rest)
termination_by 2 * tokens.length

end

/-- Reads a term and at most one operator behind it, with the operation to its
right. -/
def operationOnce (tokens : List Token) : Except Fault (Reading Tree) :=
  (operationOnceWithin tokens).forget

/-- Reads at most one operator behind `left`, with the operation to its right. -/
def chainOnce (left : Tree) (tokens : List Token) : Except Fault (Reading Tree) :=
  (chainOnceWithin left tokens).forget

/-- Reads a term whose operands are operations without a loop. -/
def termOnce (tokens : List Token) : Except Fault (Reading Tree) :=
  (termOnceWithin tokens).forget

theorem operationOnce_eq (tokens : List Token) :
    operationOnce tokens =
      match termOnce tokens with
      | .error fault => .error fault
      | .ok left => chainOnce left.value left.rest := by
  rw [operationOnce, operationOnceWithin, termOnce]
  cases termOnceWithin tokens with
  | error fault => rfl
  | ok left => exact forget_weaken _ _

theorem chainOnce_eq (left : Tree) (tokens : List Token) :
    chainOnce left tokens =
      match skipConnectors tokens with
      | [] => .ok ⟨left, []⟩
      | token :: rest =>
          match token.operator? with
          | none => .ok ⟨left, token :: rest⟩
          | some op =>
              match operationOnce (skipConnectors rest) with
              | .error fault => .error fault
              | .ok right => .ok ⟨.binary op left right.value, right.rest⟩ := by
  rw [chainOnce, chainOnceWithin]
  split
  · rename_i h
    rw [h]
    rfl
  · rename_i token rest h
    conv => rhs; rw [h]
    dsimp only
    cases token.operator? with
    | none => rfl
    | some op =>
        dsimp only [operationOnce]
        cases operationOnceWithin (skipConnectors rest) <;> rfl

@[simp] theorem termOnce_nil : termOnce [] = .error .unexpectedEndOfInput := by
  rw [termOnce, termOnceWithin, Within.forget]

theorem termOnce_cons (token : Token) (rest : List Token) :
    termOnce (token :: rest) =
      match token.kind with
      | .number => .ok ⟨.number token.normalized token.written, rest⟩
      | .identifier => .ok ⟨.identifier token.normalized, rest⟩
      | .operator op =>
          match operationOnce (skipConnectors rest) with
          | .error fault => .error fault
          | .ok first =>
              if op.arity = 1 then
                .ok ⟨.unary op first.value, first.rest⟩
              else
                match operationOnce (skipConnectors first.rest) with
                | .error fault => .error fault
                | .ok second => .ok ⟨.binary op first.value second.value, second.rest⟩
      | .sequence | .preposition | .comma | .assign => .error (.expectedTerm token rest) := by
  rw [termOnce, termOnceWithin]
  cases token.kind with
  | operator op =>
      dsimp only [operationOnce]
      cases operationOnceWithin (skipConnectors rest) with
      | error fault => rfl
      | ok first =>
          by_cases harity : op.arity = 1
          · simp [Within.forget, harity]
          · simp only [Within.forget, harity, if_false]
            cases operationOnceWithin (skipConnectors first.val.rest) <;> rfl
  | number | identifier | sequence | preposition | comma | assign => rfl

/-- A term is read alike by both readers if its operands are. -/
theorem termOnce_eq_term {tokens : List Token}
    (h : ∀ inner : List Token, inner.length < tokens.length →
      operationOnce inner = operation inner) :
    termOnce tokens = term tokens := by
  cases tokens with
  | nil => rw [termOnce_nil, term_nil]
  | cons token rest =>
      rw [termOnce_cons, term_cons]
      cases token.kind with
      | operator op =>
          have hrest := length_skipConnectors_le rest
          dsimp only
          rw [h (skipConnectors rest) (by rw [List.length_cons]; omega)]
          cases hfirst : operation (skipConnectors rest) with
          | error fault => rfl
          | ok first =>
              have hlength := length_rest_operation hfirst
              have hskip := length_skipConnectors_le first.rest
              have hoperand := h (skipConnectors first.rest) (by rw [List.length_cons]; omega)
              cases hsecond : operation (skipConnectors first.rest) with
              | error fault => simp only [hoperand, hsecond]
              | ok second => simp only [hoperand, hsecond]
      | number | identifier | sequence | preposition | comma | assign => rfl

/-- What follows a term is read alike by both readers if the operation in it is.
Behind that operation the loop has nothing to do. -/
theorem chainOnce_eq_chain {tokens : List Token}
    (h : ∀ inner : List Token, inner.length < tokens.length →
      operationOnce inner = operation inner) (left : Tree) :
    chainOnce left tokens = chain left tokens := by
  rw [chainOnce_eq, chain_eq]
  have htokens := length_skipConnectors_le tokens
  cases hskip : skipConnectors tokens with
  | nil => rfl
  | cons token rest =>
      rw [hskip, List.length_cons] at htokens
      dsimp only
      cases token.operator? with
      | none => rfl
      | some op =>
          have hrest := length_skipConnectors_le rest
          dsimp only
          rw [h (skipConnectors rest) (by omega)]
          cases hright : operation (skipConnectors rest) with
          | error fault => rfl
          | ok right => exact (chain_of_operation hright _).symm

/-- A condition does what the loop does, on the value, the fault and the tokens
that are left. -/
theorem operationOnce_eq_operation (tokens : List Token) :
    operationOnce tokens = operation tokens := by
  -- Both readers read what is inside an operation from fewer tokens.
  induction hlength : tokens.length using Nat.strongRecOn generalizing tokens with
  | _ length ih =>
      subst hlength
      have hinner : ∀ inner : List Token, inner.length < tokens.length →
          operationOnce inner = operation inner := fun inner h => ih inner.length h inner rfl
      rw [operationOnce_eq, operation_eq, termOnce_eq_term hinner]
      cases hleft : term tokens with
      | error fault => rfl
      | ok left =>
          have hrest := length_rest_term hleft
          exact chainOnce_eq_chain (fun inner h => hinner inner (by omega)) left.value

/-! ## Rows of operators -/

/-- A token that is an operand by itself, with its tree. -/
structure Operand where
  token : Token
  leaf : Tree
  token_leaf : token.leaf? = some leaf

/-- An operator between two operands with the connectors around it, and the operand
to its right. -/
structure Link where
  before : List Token
  sign : Token
  op : Operator
  after : List Token
  right : Operand
  filler_before : Filler before
  sign_kind : sign.kind = .operator op
  filler_after : Filler after

/-- The tokens of a row of operators behind its first operand. -/
def rowTokens (first : Operand) : List Link → List Token
  | [] => [first.token]
  | link :: links =>
      first.token :: (link.before ++ link.sign :: (link.after ++ rowTokens link.right links))

/-- The tree of a row, in which each operator has all that follows it on its right. -/
def rowTree (first : Operand) : List Link → Tree
  | [] => first.leaf
  | link :: links => .binary link.op first.leaf (rowTree link.right links)

theorem phrase_row (first : Operand) (links : List Link) :
    Phrase (rowTokens first links) (rowTree first links) := by
  induction links generalizing first with
  | nil => exact .leaf first.token_leaf filler_nil
  | cons link links ih =>
      exact .continued first.token_leaf link.filler_before link.sign_kind link.filler_after
        (ih link.right)

theorem parse_row (first : Operand) (links : List Link) :
    parse (rowTokens first links) = .ok [rowTree first links] :=
  parse_eq_ok_iff.mpr (.last (.operation (phrase_row first links)))

/-! ## Right recursion -/

/-- What the loop comes to when an operation is read from some tokens.  The operations
inside are read by the same reader from other tokens, and the same is said of them. -/
structure RightRecursive (tokens : List Token) : Prop where
  /-- Neither a connector nor an operator stands behind the operation. -/
  settled : ∀ reading, operation tokens = .ok reading → Settled reading.rest
  /-- Behind the first term the loop has a run, which ends with what is read. -/
  run : ∀ left, term tokens = .ok left →
    ∃ lefts, Rounds left.value left.rest lefts (operation tokens)
  /-- There is at most one round, be the operation complete or at fault. -/
  once : ∀ left lefts outcome, term tokens = .ok left →
    Rounds left.value left.rest lefts outcome → lefts.length ≤ 1
  /-- On the left of an operator between two operands there is a number or a name. -/
  single : ∀ left lefts outcome, term tokens = .ok left →
    Rounds left.value left.rest lefts outcome → ∀ operand ∈ lefts, operand.isLeaf = true
  /-- A condition would do. -/
  condition : operationOnce tokens = operation tokens

theorem rightRecursive (tokens : List Token) : RightRecursive tokens := by
  refine
    { settled := fun _ h => settled_of_operation h
      run := ?run
      once := ?once
      single := ?single
      condition := operationOnce_eq_operation tokens }
  case run =>
    intro left hleft
    rw [operation_eq, hleft]
    exact exists_rounds left.value left.rest
  case once =>
    intro left lefts outcome _ hrounds
    rcases hrounds.lefts_eq with rfl | ⟨rfl, -⟩ <;> simp
  case single =>
    intro left lefts outcome hleft hrounds operand hmem
    rcases hrounds.lefts_eq with rfl | ⟨rfl, hround⟩
    · cases hmem
    · obtain rfl := List.mem_singleton.mp hmem
      exact isLeaf_of_round? hleft hround

/-- The loop that reads operators between operands is a right recursion, and a row
of such operators is read as the tree that is nested to the right. -/
theorem operation_right_recursive :
    (∀ tokens, RightRecursive tokens) ∧
      ∀ first links,
        (∀ rest, Settled rest →
          operation (rowTokens first links ++ rest) = .ok ⟨rowTree first links, rest⟩) ∧
        parse (rowTokens first links) = .ok [rowTree first links] := by
  refine ⟨rightRecursive, fun first links => ⟨fun rest hrest => ?_, parse_row first links⟩⟩
  exact operation_eq_ok_iff.mpr ⟨rowTokens first links, rfl, phrase_row first links, hrest⟩

/-- The root is taken by the operation to the right of the sum, and the comma is
left. -/
theorem operation_right_recursive_of_row :
    Settled [⟨.comma, ",", ",", ⟨26, 27⟩⟩, ⟨.number, "2", "2", ⟨28, 29⟩⟩] ∧
      operation (Transcript.ofSource "5 suma luego 3 y raiz de x, 2").tokens =
        .ok ⟨.binary .add (.number "5" "5") (.binary .root (.number "3" "3") (.identifier "x")),
          [⟨.comma, ",", ",", ⟨26, 27⟩⟩, ⟨.number, "2", "2", ⟨28, 29⟩⟩]⟩ := by
  refine ⟨⟨rfl, rfl⟩, ?_⟩
  have hrow := (operation_right_recursive.2
    ⟨⟨.number, "5", "5", ⟨0, 1⟩⟩, .number "5" "5", rfl⟩
    [{ before := []
       sign := ⟨.operator .add, "+", "suma", ⟨2, 6⟩⟩
       op := .add
       after := [⟨.sequence, "y", "luego", ⟨7, 12⟩⟩]
       right := ⟨⟨.number, "3", "3", ⟨13, 14⟩⟩, .number "3" "3", rfl⟩
       filler_before := filler_nil
       sign_kind := rfl
       filler_after := filler_cons.mpr ⟨rfl, filler_nil⟩ },
     { before := [⟨.sequence, "y", "y", ⟨15, 16⟩⟩]
       sign := ⟨.operator .root, "√", "raiz", ⟨17, 21⟩⟩
       op := .root
       after := [⟨.preposition, "con", "de", ⟨22, 24⟩⟩]
       right := ⟨⟨.identifier, "x", "x", ⟨25, 26⟩⟩, .identifier "x", rfl⟩
       filler_before := filler_cons.mpr ⟨rfl, filler_nil⟩
       sign_kind := rfl
       filler_after := filler_cons.mpr ⟨rfl, filler_nil⟩ }]).1
    [⟨.comma, ",", ",", ⟨26, 27⟩⟩, ⟨.number, "2", "2", ⟨28, 29⟩⟩] ⟨rfl, rfl⟩
  refine Eq.trans (congrArg operation ?_) hrow
  decide +kernel

end Reading
end SpokenArithmetic
