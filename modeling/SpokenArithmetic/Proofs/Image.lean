import SpokenArithmetic.Proofs.Phrase

/-!
# The trees of operations

Not every tree can be said.  An operator between two operands has a single
operand on its left, and the second operand of an operator in front of its
operands opens with an operand.  A tree is that of an operation exactly if each
of its inner nodes has one of these two forms or is a root with one operand
(`readable_iff`).  The tokens for such a tree are given by `Tree.spoken`, which
writes an operator between its operands wherever it can.
-/

namespace SpokenArithmetic

/-- An operator that is written as its symbol. -/
def Operator.token (op : Operator) : Token where
  kind := .operator op
  normalized := op.symbol
  written := op.symbol
  span := ⟨0, 0⟩

theorem Operator.kind_token (op : Operator) : op.token.kind = .operator op := rfl

namespace Tree

/-- Whether the tokens of a tree open with an operand, be it the whole tree or
the left side of an operator. -/
def opensWithOperand : Tree → Bool
  | .number _ _ | .identifier _ => true
  | .binary _ left _ => left.isLeaf
  | .unary _ _ | .assignment _ _ => false

/-- The trees of operations.  The two sides of the disjunction are the two places
where an operator with two operands can stand. -/
inductive Readable : Tree → Prop where
  | number (value text : String) : Readable (.number value text)
  | identifier (name : String) : Readable (.identifier name)
  | root {operand : Tree} (h : Readable operand) : Readable (.unary .root operand)
  | binary {op : Operator} {left right : Tree} (hleft : Readable left) (hright : Readable right)
      (h : left.isLeaf = true ∨ op ≠ .root ∧ right.opensWithOperand = true) :
      Readable (.binary op left right)

/-- Tokens that say a tree. -/
def spoken : Tree → List Token
  | .number value text => [⟨.number, value, text, ⟨0, 0⟩⟩]
  | .identifier name => [⟨.identifier, name, name, ⟨0, 0⟩⟩]
  | .unary op operand => op.token :: operand.spoken
  | .binary op left right =>
      if left.isLeaf then
        left.spoken ++ op.token :: right.spoken
      else
        op.token :: (left.spoken ++ right.spoken)
  | .assignment target value =>
      ⟨.identifier, target, target, ⟨0, 0⟩⟩ :: ⟨.assign, "=", "=", ⟨0, 0⟩⟩ :: value.spoken

/-- The trees inside a tree, itself among them. -/
def subtrees : Tree → List Tree
  | .number value text => [.number value text]
  | .identifier name => [.identifier name]
  | .unary op operand => .unary op operand :: operand.subtrees
  | .binary op left right => .binary op left right :: (left.subtrees ++ right.subtrees)
  | .assignment target value => .assignment target value :: value.subtrees

theorem readable_unary_iff {op : Operator} {operand : Tree} :
    Readable (.unary op operand) ↔ op = .root ∧ Readable operand := by
  constructor
  · rintro ⟨⟩
    exact ⟨rfl, ‹_›⟩
  · rintro ⟨rfl, h⟩
    exact .root h

theorem readable_binary_iff {op : Operator} {left right : Tree} :
    Readable (.binary op left right) ↔
      Readable left ∧ Readable right ∧
        (left.isLeaf = true ∨ op ≠ .root ∧ right.opensWithOperand = true) := by
  constructor
  · rintro ⟨⟩
    exact ⟨‹_›, ‹_›, ‹_›⟩
  · rintro ⟨hleft, hright, h⟩
    exact .binary hleft hright h

instance decidableReadable : (tree : Tree) → Decidable tree.Readable
  | .number value text => .isTrue (.number value text)
  | .identifier name => .isTrue (.identifier name)
  | .unary _ operand =>
      have := decidableReadable operand
      decidable_of_iff _ readable_unary_iff.symm
  | .binary _ left right =>
      have := decidableReadable left
      have := decidableReadable right
      decidable_of_iff _ readable_binary_iff.symm
  | .assignment _ _ => .isFalse nofun

/-- What is inside the tree of an operation is the tree of an operation. -/
theorem Readable.of_mem_subtrees {tree part : Tree} (h : Readable tree)
    (hpart : part ∈ tree.subtrees) : Readable part := by
  induction h with
  | number value text =>
      obtain rfl := List.mem_singleton.mp hpart
      exact .number value text
  | identifier name =>
      obtain rfl := List.mem_singleton.mp hpart
      exact .identifier name
  | root h ih =>
      rcases List.mem_cons.mp hpart with rfl | hpart
      · exact .root h
      · exact ih hpart
  | binary hleft hright h ihleft ihright =>
      rcases List.mem_cons.mp hpart with rfl | hpart
      · exact .binary hleft hright h
      · rcases List.mem_append.mp hpart with hpart | hpart
        · exact ihleft hpart
        · exact ihright hpart

theorem Readable.target?_eq_none {tree : Tree} (h : Readable tree) : tree.target? = none := by
  cases h <;> rfl

/-! ## Tokens of a single operand -/

theorem isLeaf_of_leaf? {token : Token} {tree : Tree} (h : token.leaf? = some tree) :
    tree.isLeaf = true := by
  unfold Token.leaf? at h
  split at h <;> cases h <;> rfl

theorem readable_of_leaf? {token : Token} {tree : Tree} (h : token.leaf? = some tree) :
    Readable tree := by
  unfold Token.leaf? at h
  split at h <;> cases h
  · exact .number _ _
  · exact .identifier _

theorem opensWithOperand_of_isLeaf {tree : Tree} (h : tree.isLeaf = true) :
    tree.opensWithOperand = true := by
  cases tree <;> first | rfl | cases h

theorem exists_spoken_of_isLeaf {tree : Tree} (h : tree.isLeaf = true) :
    ∃ token : Token, tree.spoken = [token] ∧ token.leaf? = some tree := by
  cases tree with
  | number value text => exact ⟨_, rfl, rfl⟩
  | identifier name => exact ⟨_, rfl, rfl⟩
  | unary op operand => cases h
  | binary op left right => cases h
  | assignment target value => cases h

end Tree

namespace Reading

open Grammar SpokenArithmetic.Tree

/-! ## Every operation has a tree of the class -/

/-- A phrase that no operation in front of it can go on with opens with an
operand. -/
theorem Phrase.opensWithOperand {tokens : List Token} {tree : Tree} (h : Phrase tokens tree)
    (hsettled : Settled tokens) : tree.opensWithOperand = true := by
  cases h with
  | leaf hleaf _ => exact opensWithOperand_of_isLeaf (isLeaf_of_leaf? hleaf)
  | continued hleaf _ _ _ _ => exact isLeaf_of_leaf? hleaf
  | unary hsign _ _ _ => exact absurd hsettled.2 (by simp [operator?_of_operator hsign])
  | binary hsign _ _ _ _ _ => exact absurd hsettled.2 (by simp [operator?_of_operator hsign])

theorem Phrase.readable {tokens : List Token} {tree : Tree} (h : Phrase tokens tree) :
    Readable tree := by
  induction h with
  | leaf hleaf _ => exact readable_of_leaf? hleaf
  | continued hleaf _ _ _ _ ih =>
      exact .binary (readable_of_leaf? hleaf) ih (Or.inl (isLeaf_of_leaf? hleaf))
  | unary _ harity _ _ ih =>
      obtain rfl := (Operator.arity_eq_one_iff _).mp harity
      exact .root ih
  | binary _ harity _ _ hright hback ihleft ihright =>
      have hroot := (Operator.arity_eq_two_iff _).mp harity
      exact .binary ihleft ihright (Or.inr ⟨hroot, hright.opensWithOperand hback⟩)

/-! ## Every tree of the class can be said -/

/-- Nothing in front can go on with the tokens of such a tree. -/
theorem settled_spoken {tree : Tree} (h : tree.opensWithOperand = true) :
    Settled tree.spoken := by
  have hsettled : ∀ {operand : Tree} (rest : List Token), operand.isLeaf = true →
      Settled (operand.spoken ++ rest) := by
    intro operand rest hleaf
    obtain ⟨token, hspoken, htoken⟩ := exists_spoken_of_isLeaf hleaf
    rw [hspoken]
    exact ⟨isConnector_of_leaf? htoken, operator?_of_leaf? htoken⟩
  cases tree with
  | number value text => exact ⟨rfl, rfl⟩
  | identifier name => exact ⟨rfl, rfl⟩
  | binary op left right =>
      have hleaf : left.isLeaf = true := h
      rw [spoken, if_pos hleaf]
      exact hsettled _ hleaf
  | unary op operand => cases h
  | assignment target value => cases h

theorem phrase_spoken {tree : Tree} (h : Readable tree) : Phrase tree.spoken tree := by
  induction h with
  | number value text => exact .leaf rfl filler_nil
  | identifier name => exact .leaf rfl filler_nil
  | root _ ih => exact .unary (Operator.kind_token .root) rfl filler_nil ih
  | @binary op left right _ _ h ihleft ihright =>
      by_cases hleaf : left.isLeaf = true
      · obtain ⟨token, hspoken, htoken⟩ := exists_spoken_of_isLeaf hleaf
        rw [spoken, if_pos hleaf, hspoken]
        exact .continued htoken filler_nil op.kind_token filler_nil ihright
      · obtain ⟨hroot, hopens⟩ := h.resolve_left hleaf
        rw [spoken, if_neg hleaf]
        exact .binary op.kind_token (op.arity_eq_two_iff.mpr hroot) filler_nil ihleft ihright
          (settled_spoken hopens)

theorem readable_of_operation {tokens : List Token} {reading : Reading Tree}
    (h : operation tokens = .ok reading) : Readable reading.value := by
  obtain ⟨front, -, hphrase, -⟩ := operation_eq_ok_iff.mp h
  exact hphrase.readable

theorem operation_spoken {tree : Tree} (h : Readable tree) :
    operation tree.spoken = .ok ⟨tree, []⟩ :=
  operation_eq_ok_iff.mpr ⟨tree.spoken, (List.append_nil _).symm, phrase_spoken h, trivial⟩

/-- The trees that operations are read as are exactly those of the class, and each
of them is read from tokens of its own, to the last of them.  Inside such a tree
there is no assignment, and only the root has one operand. -/
theorem readable_iff (tree : Tree) :
    (Readable tree ↔ ∃ tokens rest, operation tokens = .ok ⟨tree, rest⟩) ∧
      (Readable tree ↔ operation tree.spoken = .ok ⟨tree, []⟩) ∧
      (Readable tree → ∀ part ∈ tree.subtrees, part.target? = none ∧
        ∀ op operand, part = .unary op operand → op = .root) := by
  refine ⟨⟨fun h => ⟨_, _, operation_spoken h⟩, ?_⟩, ⟨operation_spoken, ?_⟩, ?_⟩
  · rintro ⟨tokens, rest, h⟩
    exact readable_of_operation h
  · exact readable_of_operation
  · intro h part hpart
    have hreadable := h.of_mem_subtrees hpart
    refine ⟨hreadable.target?_eq_none, ?_⟩
    rintro op operand rfl
    exact (readable_unary_iff.mp hreadable).1

/-- The left side of the power is no single operand, so that the power has to stand
in front, and the product on its right opens with an operand. -/
theorem readable_iff_of_power :
    Readable (.binary .power (.binary .add (.unary .root (.number "4" "4")) (.identifier "x"))
        (.binary .multiply (.identifier "z") (.number "2" "dos"))) ∧
      operation (Tree.spoken
        (.binary .power (.binary .add (.unary .root (.number "4" "4")) (.identifier "x"))
          (.binary .multiply (.identifier "z") (.number "2" "dos")))) =
        .ok ⟨.binary .power (.binary .add (.unary .root (.number "4" "4")) (.identifier "x"))
          (.binary .multiply (.identifier "z") (.number "2" "dos")), []⟩ := by
  have hreadable : Readable
      (.binary .power (.binary .add (.unary .root (.number "4" "4")) (.identifier "x"))
        (.binary .multiply (.identifier "z") (.number "2" "dos"))) := by
    decide
  exact ⟨hreadable, (readable_iff _).2.1.mp hreadable⟩

/-- No tokens are read as a sum of two roots. -/
example : ¬ Readable (.binary .add (.unary .root (.number "4" "4"))
    (.unary .root (.number "9" "9"))) := by
  decide

end Reading
end SpokenArithmetic
