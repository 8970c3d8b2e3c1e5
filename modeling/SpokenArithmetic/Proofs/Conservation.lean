import SpokenArithmetic.Proofs.Clause
import SpokenArithmetic.Transcript

/-!
# What an operation is made of

Reading an operation keeps every operand and every operator that it takes, once
and in the order of the tokens.  Only connectors are dropped.  That the operators
come in order as well is due to the left side of an operator between two operands,
which is a single operand and so holds no operator (`Phrase.operators_eq`).
-/

namespace SpokenArithmetic
namespace Reading

open Grammar

/-- Whether some tokens are just what a tree is built from, with connectors
around. -/
structure Conserves (taken : List Token) (tree : Tree) : Prop where
  kinds : ∀ token ∈ taken, token.kind.isOperand = true ∨ token.operator?.isSome = true ∨
    token.isConnector = true
  /-- The leaves are the numbers and names among the tokens, in their order. -/
  leaves : tree.leaves = taken.filterMap Token.leaf?
  /-- The operators of the inner nodes are those of the tokens, even in order. -/
  operators : tree.operators = taken.filterMap Token.operator?

/-! ## Tokens by themselves -/

theorem isOperand_of_leaf? {token : Token} {tree : Tree} (h : token.leaf? = some tree) :
    token.kind.isOperand = true := by
  rcases kind_of_leaf? h with hkind | hkind <;> rw [hkind] <;> rfl

theorem leaves_of_leaf? {token : Token} {tree : Tree} (h : token.leaf? = some tree) :
    tree.leaves = [tree] := by
  unfold Token.leaf? at h
  split at h <;> cases h <;> rfl

theorem operators_of_leaf? {token : Token} {tree : Tree} (h : token.leaf? = some tree) :
    tree.operators = [] := by
  unfold Token.leaf? at h
  split at h <;> cases h <;> rfl

theorem leaf?_of_operator {token : Token} {op : Operator} (h : token.kind = .operator op) :
    token.leaf? = none := by
  simp [Token.leaf?, h]

theorem neither_of_isConnector {token : Token} (h : token.isConnector = true) :
    token.leaf? = none ∧ token.operator? = none := by
  unfold Token.isConnector at h
  unfold Token.leaf? Token.operator?
  cases hkind : token.kind with
  | sequence | preposition => exact ⟨rfl, rfl⟩
  | number | identifier | operator op | comma | assign =>
      rw [hkind] at h
      cases h

theorem filterMap_leaf?_filler {filler : List Token} (h : Filler filler) :
    filler.filterMap Token.leaf? = [] :=
  List.filterMap_eq_nil_iff.mpr fun token htoken => (neither_of_isConnector (h token htoken)).1

theorem filterMap_operator?_filler {filler : List Token} (h : Filler filler) :
    filler.filterMap Token.operator? = [] :=
  List.filterMap_eq_nil_iff.mpr fun token htoken => (neither_of_isConnector (h token htoken)).2

/-! ## Phrases -/

namespace Phrase

variable {tokens : List Token} {tree : Tree}

theorem kinds (h : Phrase tokens tree) : ∀ token ∈ tokens, token.kind.isOperand = true ∨
    token.operator?.isSome = true ∨ token.isConnector = true := by
  have hoperator : ∀ {sign : Token} {op : Operator}, sign.kind = .operator op →
      sign.operator?.isSome = true := by
    intro sign op hsign
    rw [operator?_of_operator hsign, Option.isSome_some]
  have hconnector : ∀ {filler : List Token}, Filler filler → ∀ token ∈ filler,
      token.kind.isOperand = true ∨ token.operator?.isSome = true ∨ token.isConnector = true :=
    fun hfiller token htoken => Or.inr (Or.inr (hfiller token htoken))
  induction h with
  | leaf hleaf hfiller =>
      exact List.forall_mem_cons.mpr ⟨Or.inl (isOperand_of_leaf? hleaf), hconnector hfiller⟩
  | continued hleaf hfiller hsign hfiller' _ ih =>
      simp only [List.forall_mem_cons, List.forall_mem_append]
      exact ⟨Or.inl (isOperand_of_leaf? hleaf), hconnector hfiller,
        Or.inr (Or.inl (hoperator hsign)), hconnector hfiller', ih⟩
  | unary hsign _ hfiller _ ih =>
      simp only [List.forall_mem_cons, List.forall_mem_append]
      exact ⟨Or.inr (Or.inl (hoperator hsign)), hconnector hfiller, ih⟩
  | binary hsign _ hfiller _ _ _ ihleft ihright =>
      simp only [List.forall_mem_cons, List.forall_mem_append]
      exact ⟨Or.inr (Or.inl (hoperator hsign)), hconnector hfiller, ihleft, ihright⟩

theorem leaves_eq (h : Phrase tokens tree) : tree.leaves = tokens.filterMap Token.leaf? := by
  induction h with
  | leaf hleaf hfiller =>
      rw [List.filterMap_cons_some hleaf, filterMap_leaf?_filler hfiller, leaves_of_leaf? hleaf]
  | continued hleaf hfiller hsign hfiller' _ ih =>
      rw [List.filterMap_cons_some hleaf, List.filterMap_append, filterMap_leaf?_filler hfiller,
        List.filterMap_cons_none (leaf?_of_operator hsign), List.filterMap_append,
        filterMap_leaf?_filler hfiller', ← ih, Tree.leaves, leaves_of_leaf? hleaf]
      rfl
  | unary hsign _ hfiller _ ih =>
      rw [List.filterMap_cons_none (leaf?_of_operator hsign), List.filterMap_append,
        filterMap_leaf?_filler hfiller, ← ih]
      rfl
  | binary hsign _ hfiller _ _ _ ihleft ihright =>
      rw [List.filterMap_cons_none (leaf?_of_operator hsign), List.filterMap_append,
        filterMap_leaf?_filler hfiller, List.filterMap_append, ← ihleft, ← ihright]
      rfl

/-- The operators of a phrase stand in the tree as they do among the tokens. -/
theorem operators_eq (h : Phrase tokens tree) :
    tree.operators = tokens.filterMap Token.operator? := by
  induction h with
  | leaf hleaf hfiller =>
      rw [List.filterMap_cons_none (operator?_of_leaf? hleaf), filterMap_operator?_filler hfiller,
        operators_of_leaf? hleaf]
  | continued hleaf hfiller hsign hfiller' _ ih =>
      -- The operand in front of the sign brings no operators with it.
      rw [List.filterMap_cons_none (operator?_of_leaf? hleaf), List.filterMap_append,
        filterMap_operator?_filler hfiller, List.filterMap_cons_some (operator?_of_operator hsign),
        List.filterMap_append, filterMap_operator?_filler hfiller', ← ih, Tree.operators,
        operators_of_leaf? hleaf]
      rfl
  | unary hsign _ hfiller _ ih =>
      rw [List.filterMap_cons_some (operator?_of_operator hsign), List.filterMap_append,
        filterMap_operator?_filler hfiller, ← ih]
      rfl
  | binary hsign _ hfiller _ _ _ ihleft ihright =>
      rw [List.filterMap_cons_some (operator?_of_operator hsign), List.filterMap_append,
        filterMap_operator?_filler hfiller, List.filterMap_append, ← ihleft, ← ihright]
      rfl

theorem conserves (h : Phrase tokens tree) : Conserves tokens tree where
  kinds := h.kinds
  leaves := h.leaves_eq
  operators := h.operators_eq

end Phrase

/-- An operation takes operands, operators and connectors from the front of the
tokens, and its tree holds all the operands and operators that it takes and no
others. -/
theorem operation_conserves {tokens : List Token} {reading : Reading Tree}
    (h : operation tokens = .ok reading) :
    ∃ taken, tokens = taken ++ reading.rest ∧ Conserves taken reading.value := by
  obtain ⟨taken, htaken, hphrase, -⟩ := operation_eq_ok_iff.mp h
  exact ⟨taken, htaken, hphrase.conserves⟩

/-- The comma and what follows it are left, and the product that is written between
its operands comes behind the root that is written in front of one. -/
theorem operation_conserves_of_nested_root :
    operation (Transcript.ofSource "suma raiz de Nueve y x por 2, z").tokens =
        .ok ⟨.binary .add (.unary .root (.number "9" "Nueve"))
            (.binary .multiply (.identifier "x") (.number "2" "2")),
          (Transcript.ofSource "suma raiz de Nueve y x por 2, z").tokens.drop 8⟩ ∧
      ∃ taken, (Transcript.ofSource "suma raiz de Nueve y x por 2, z").tokens =
          taken ++ (Transcript.ofSource "suma raiz de Nueve y x por 2, z").tokens.drop 8 ∧
        Conserves taken (.binary .add (.unary .root (.number "9" "Nueve"))
          (.binary .multiply (.identifier "x") (.number "2" "2"))) := by
  have hread : operation (Transcript.ofSource "suma raiz de Nueve y x por 2, z").tokens =
      .ok ⟨.binary .add (.unary .root (.number "9" "Nueve"))
          (.binary .multiply (.identifier "x") (.number "2" "2")),
        (Transcript.ofSource "suma raiz de Nueve y x por 2, z").tokens.drop 8⟩ := by
    decide +kernel
  exact ⟨hread, operation_conserves hread⟩

end Reading
end SpokenArithmetic
