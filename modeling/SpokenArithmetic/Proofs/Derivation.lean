import SpokenArithmetic.Proofs.Counting
import SpokenArithmetic.Transcript

/-!
# Which sentences of the grammar are read

The grammar lets an operator behind a complete operand open the next operand.
Reading never does this, as it takes every operator behind an operand as one
that stands between two.  For an operator of arity two this comes to the same,
since it asks for one more operand either way.  A root asks for none in front
of its operand, so that between two operands it takes away one that another
operator waits for.  Hence a sentence of the grammar is read exactly if in its
derivation no second operand of an operator begins with a root.
-/

namespace SpokenArithmetic
namespace Grammar

open Reading Acceptance

/-- Whether some tokens begin with a root. -/
def opensWithRoot (tokens : List Token) : Bool :=
  tokens.head?.any fun token => token.kind == .operator .root

/-- The derivations of operations.  The number is that of the operators of
arity two in front of their operands whose second operand begins with a root. -/
inductive Derivation : Nat → List Token → Tree → Prop where
  | leaf {token : Token} {tree : Tree} (hleaf : token.leaf? = some tree) :
      Derivation 0 [token] tree
  | unary {count : Nat} {sign : Token} {op : Operator} {filler tokens : List Token}
      {operand : Tree} (hsign : sign.kind = .operator op) (harity : op.arity = 1)
      (hfiller : Filler filler) (hoperand : Derivation count tokens operand) :
      Derivation count (sign :: (filler ++ tokens)) (.unary op operand)
  | binary {count count' : Nat} {sign : Token} {op : Operator}
      {filler front filler' back : List Token} {left right : Tree}
      (hsign : sign.kind = .operator op) (harity : op.arity = 2) (hfiller : Filler filler)
      (hleft : Derivation count front left) (hfiller' : Filler filler')
      (hright : Derivation count' back right) :
      Derivation (count + count' + if opensWithRoot back then 1 else 0)
        (sign :: (filler ++ front ++ filler' ++ back)) (.binary op left right)
  | continued {count count' : Nat} {sign : Token} {op : Operator}
      {front filler filler' back : List Token} {left right : Tree}
      (hleft : Derivation count front left) (hfiller : Filler filler)
      (hsign : sign.kind = .operator op) (hfiller' : Filler filler')
      (hright : Derivation count' back right) :
      Derivation (count + count') (front ++ filler ++ sign :: (filler' ++ back))
        (.binary op left right)

theorem leaf?_of_number {token : Token} (h : token.kind = .number) :
    token.leaf? = some (.number token.normalized token.written) := by
  simp [Token.leaf?, h]

theorem leaf?_of_identifier {token : Token} (h : token.kind = .identifier) :
    token.leaf? = some (.identifier token.normalized) := by
  simp [Token.leaf?, h]

mutual

theorem Term.exists_derivation {tokens : List Token} {tree : Tree} :
    Term tokens tree → ∃ count, Derivation count tokens tree
  | .number hkind => ⟨0, .leaf (leaf?_of_number hkind)⟩
  | .identifier hkind => ⟨0, .leaf (leaf?_of_identifier hkind)⟩
  | .unary hsign harity hfiller hoperand =>
      have ⟨count, hcount⟩ := hoperand.exists_derivation
      ⟨count, .unary hsign harity hfiller hcount⟩
  | .binary hsign harity hfiller hleft hfiller' hright =>
      have ⟨_, hcount⟩ := hleft.exists_derivation
      have ⟨_, hcount'⟩ := hright.exists_derivation
      ⟨_, .binary hsign harity hfiller hcount hfiller' hcount'⟩

theorem Operation.exists_derivation {tokens : List Token} {tree : Tree} :
    Operation tokens tree → ∃ count, Derivation count tokens tree
  | .term hterm => hterm.exists_derivation
  | .continued hleft hfiller hsign hfiller' hright =>
      have ⟨_, hcount⟩ := hleft.exists_derivation
      have ⟨_, hcount'⟩ := hright.exists_derivation
      ⟨_, .continued hcount hfiller hsign hfiller' hcount'⟩

end

namespace Derivation

theorem operation {count : Nat} {tokens : List Token} {tree : Tree}
    (h : Derivation count tokens tree) : Operation tokens tree := by
  induction h with
  | @leaf token tree hleaf =>
      unfold Token.leaf? at hleaf
      split at hleaf
      · rename_i hkind
        cases hleaf
        exact .term (.number hkind)
      · rename_i hkind
        cases hleaf
        exact .term (.identifier hkind)
      · cases hleaf
  | unary hsign harity hfiller _ ih => exact .term (.unary hsign harity hfiller ih)
  | binary hsign harity hfiller _ hfiller' _ ihleft ihright =>
      exact .term (.binary hsign harity hfiller ihleft hfiller' ihright)
  | continued _ hfiller hsign hfiller' _ ihleft ihright =>
      exact .continued ihleft hfiller hsign hfiller' ihright

/-- Counting leaves the grammar as it is. -/
theorem exists_iff {tokens : List Token} {tree : Tree} :
    (∃ count, Derivation count tokens tree) ↔ Operation tokens tree := by
  constructor
  · rintro ⟨count, h⟩
    exact h.operation
  · exact Operation.exists_derivation

/-- An operation begins with an operand or an operator, and no more than that
is needed of its first token. -/
theorem exists_cons {count : Nat} {tokens : List Token} {tree : Tree}
    (h : Derivation count tokens tree) :
    ∃ token rest, tokens = token :: rest ∧
      ((∃ tree, token.leaf? = some tree) ∨ ∃ op, token.kind = .operator op) := by
  induction h with
  | leaf hleaf => exact ⟨_, [], rfl, Or.inl ⟨_, hleaf⟩⟩
  | unary hsign => exact ⟨_, _, rfl, Or.inr ⟨_, hsign⟩⟩
  | binary hsign => exact ⟨_, _, rfl, Or.inr ⟨_, hsign⟩⟩
  | continued _ _ _ _ _ ihleft =>
      obtain ⟨token, rest, rfl, hfirst⟩ := ihleft
      exact ⟨token, _, rfl, hfirst⟩

theorem ne_nil {count : Nat} {tokens : List Token} {tree : Tree}
    (h : Derivation count tokens tree) : tokens ≠ [] := by
  obtain ⟨token, rest, rfl, -⟩ := h.exists_cons
  exact List.cons_ne_nil _ _

theorem skipConnectors_filler_append {count : Nat} {tokens : List Token} {tree : Tree}
    (h : Derivation count tokens tree) {filler : List Token} (hfiller : Filler filler)
    (rest : List Token) :
    skipConnectors (filler ++ (tokens ++ rest)) = tokens ++ rest := by
  obtain ⟨token, tokens, rfl, hfirst⟩ := h.exists_cons
  rw [Reading.skipConnectors_filler_append hfiller, List.cons_append]
  rcases hfirst with ⟨tree, hleaf⟩ | ⟨op, hsign⟩
  · exact skipConnectors_cons (isConnector_of_leaf? hleaf) _
  · exact skipConnectors_cons (isConnector_of_operator hsign) _

theorem inner {count : Nat} {tokens : List Token} {tree : Tree}
    (h : Derivation count tokens tree) : Inner tokens := by
  induction h with
  | leaf hleaf => exact inner_cons.mpr ⟨inner_of_leaf? hleaf, inner_nil⟩
  | unary hsign _ hfiller _ ih =>
      simp only [inner_cons, inner_append]
      exact ⟨inner_of_operator hsign, inner_filler hfiller, ih⟩
  | binary hsign _ hfiller _ hfiller' _ ihleft ihright =>
      simp only [inner_cons, inner_append]
      exact ⟨inner_of_operator hsign,
        ⟨⟨inner_filler hfiller, ihleft⟩, inner_filler hfiller'⟩, ihright⟩
  | continued _ hfiller hsign hfiller' _ ihleft ihright =>
      simp only [inner_cons, inner_append]
      exact ⟨⟨ihleft, inner_filler hfiller⟩, inner_of_operator hsign,
        inner_filler hfiller', ihright⟩

/-- Where a second operand is waited for, it is opened like any other operation
unless it begins with a root.  A root takes the place of an operator between two
operands, and the second operand is still waited for. -/
theorem run_second {count : Nat} {tokens : List Token} {tree : Tree}
    (h : Derivation count tokens tree) (waiting : Nat) (rest : List Token) :
    run .done (waiting + 1) (tokens ++ rest) =
      run .value (waiting + if opensWithRoot tokens then 1 else 0) (tokens ++ rest) := by
  obtain ⟨token, tokens, rfl, hfirst⟩ := h.exists_cons
  have hroot : opensWithRoot (token :: tokens) = (token.kind == .operator .root) := rfl
  rw [hroot, List.cons_append]
  rcases hfirst with ⟨tree, hleaf⟩ | ⟨op, hsign⟩
  · have hkind : (token.kind == .operator .root) = false := by
      rcases kind_of_leaf? hleaf with hkind | hkind <;> rw [hkind] <;> rfl
    have hsettled : Settled (token :: (tokens ++ rest)) :=
      ⟨isConnector_of_leaf? hleaf, operator?_of_leaf? hleaf⟩
    rw [hkind, run_done_succ_of_settled hsettled]
    rfl
  · rw [run_done_of_operator hsign]
    rcases arity_eq_one_or_two op with harity | harity
    · have hop : op = .root := op.arity_eq_one_iff.mp harity
      subst hop
      rw [run_value_of_unary hsign harity, if_pos (by simp [hsign])]
    · have hop : op ≠ .root := op.arity_eq_two_iff.mp harity
      rw [run_value_of_binary hsign harity, if_neg (by simp [hsign, hop])]

/-- Over an operation the count goes up by as much as its derivation says. -/
theorem run_append {count : Nat} {tokens : List Token} {tree : Tree}
    (h : Derivation count tokens tree) (waiting : Nat) (rest : List Token) :
    run .value waiting (tokens ++ rest) = run .done (waiting + count) rest := by
  induction h generalizing waiting rest with
  | leaf hleaf => exact run_value_of_leaf? hleaf waiting rest
  | unary hsign harity hfiller hoperand ih =>
      rw [List.cons_append, List.append_assoc, run_value_of_unary hsign harity, run_need,
        hoperand.skipConnectors_filler_append hfiller, ih]
  | @binary count count' sign op filler front filler' back left right hsign harity hfiller hleft
      hfiller' hright ihleft ihright =>
      simp only [List.cons_append, List.append_assoc]
      -- The second operand is waited for all over the first one.
      have hfirst :
          run .value waiting (sign :: (filler ++ (front ++ (filler' ++ (back ++ rest))))) =
            run .done (waiting + count + 1) (filler' ++ (back ++ rest)) := by
        rw [run_value_of_binary hsign harity, run_need,
          hleft.skipConnectors_filler_append hfiller, ihleft, Nat.add_right_comm]
      rw [hfirst, run_done, hright.skipConnectors_filler_append hfiller', hright.run_second,
        ihright]
      congr 1
      omega
  | @continued count count' sign op front filler filler' back left right hleft hfiller hsign
      hfiller' hright ihleft ihright =>
      have hskip : skipConnectors (filler ++ sign :: (filler' ++ (back ++ rest))) =
          sign :: (filler' ++ (back ++ rest)) := by
        rw [Reading.skipConnectors_filler_append hfiller,
          skipConnectors_cons (isConnector_of_operator hsign)]
      simp only [List.cons_append, List.append_assoc]
      rw [ihleft, run_done, hskip, run_done_of_operator hsign, run_need,
        hright.skipConnectors_filler_append hfiller', ihright, Nat.add_assoc]

end Derivation

/-! ## Sentences -/

theorem Statement.exists_clause {tokens : List Token} {tree : Tree} (h : Statement tokens tree) :
    ∃ count, Clause (Derivation count) tokens tree := by
  cases h with
  | assignment htarget hsign hvalue =>
      obtain ⟨count, hcount⟩ := hvalue.exists_derivation
      exact ⟨count, .assignment htarget hsign hcount⟩
  | operation h =>
      obtain ⟨count, hcount⟩ := h.exists_derivation
      exact ⟨count, .operation hcount⟩

/-- Over a statement the count goes up as it does over the operation in it. -/
theorem run_statement {count : Nat} {tokens rest : List Token} {tree : Tree}
    (h : Clause (Derivation count) tokens tree) (hrest : AtBreak rest) :
    run .start 0 (tokens ++ rest) = run .done count rest := by
  refine run_clause ?_ ?_ h hrest
  · intro tokens tree h
    exact ⟨h.ne_nil, h.inner⟩
  · intro tokens tree h rest
    rw [h.run_append, Nat.zero_add]

theorem joined_of_accepts {tokens : List Token} {trees : List Tree} (h : Sentence tokens trees)
    (haccepts : accepts tokens = true) : Joined (Derivation 0) tokens trees := by
  change run .start 0 tokens = true at haccepts
  induction h with
  | @last tokens tree hstatement =>
      obtain ⟨count, hclause⟩ := hstatement.exists_clause
      rw [← List.append_nil tokens, run_statement hclause (show AtBreak [] from trivial),
        run_nil] at haccepts
      have hcount : count = 0 := by simpa using haccepts
      subst hcount
      exact .last hclause
  | @cons separator tokens rest tree trees hstatement hseparator _ ih =>
      obtain ⟨count, hclause⟩ := hstatement.exists_clause
      rw [run_statement hclause (show AtBreak (separator :: rest) from hseparator),
        run_done_of_comma hseparator, Bool.and_eq_true] at haccepts
      have hcount : count = 0 := by simpa using haccepts.1
      subst hcount
      exact .cons hclause hseparator (ih haccepts.2)

/-- A sentence of the grammar has a structure exactly if nowhere in its
derivation the second operand of an operator in front begins with a root. -/
theorem isOk_parse_iff_of_sentence {tokens : List Token} {trees : List Tree}
    (h : Sentence tokens trees) :
    (parse tokens).isOk = true ↔ Joined (Derivation 0) tokens trees := by
  rw [isOk_parse_iff, exists_joined_iff]
  constructor
  · exact joined_of_accepts h
  · intro hjoined
    refine accepts_of_joined ?_ ?_ hjoined
    · intro tokens tree h
      exact ⟨h.ne_nil, h.inner⟩
    · intro tokens tree h rest
      exact h.run_append 0 rest

/-- The second operand may begin with an operator of arity two. -/
theorem isOk_parse_iff_of_nested_sum :
    Sentence (Transcript.ofSource "suma 1 y suma 2 y 3").tokens
        [.binary .add (.number "1" "1") (.binary .add (.number "2" "2") (.number "3" "3"))] ∧
      Joined (Derivation 0) (Transcript.ofSource "suma 1 y suma 2 y 3").tokens
        [.binary .add (.number "1" "1") (.binary .add (.number "2" "2") (.number "3" "3"))] := by
  have htokens : (Transcript.ofSource "suma 1 y suma 2 y 3").tokens =
      [⟨.operator .add, "+", "suma", ⟨0, 4⟩⟩, ⟨.number, "1", "1", ⟨5, 6⟩⟩,
        ⟨.sequence, "y", "y", ⟨7, 8⟩⟩, ⟨.operator .add, "+", "suma", ⟨9, 13⟩⟩,
        ⟨.number, "2", "2", ⟨14, 15⟩⟩, ⟨.sequence, "y", "y", ⟨16, 17⟩⟩,
        ⟨.number, "3", "3", ⟨18, 19⟩⟩] := by
    decide +kernel
  have hy : ∀ span, Filler [⟨.sequence, "y", "y", span⟩] :=
    fun span => filler_cons.mpr ⟨rfl, filler_nil⟩
  have hsentence : Sentence (Transcript.ofSource "suma 1 y suma 2 y 3").tokens
      [.binary .add (.number "1" "1") (.binary .add (.number "2" "2") (.number "3" "3"))] := by
    rw [htokens]
    exact .last (.operation (.term (.binary rfl rfl filler_nil (.term (.number rfl)) (hy _)
      (.term (.binary rfl rfl filler_nil (.term (.number rfl)) (hy _) (.term (.number rfl)))))))
  exact ⟨hsentence, (isOk_parse_iff_of_sentence hsentence).mp (by decide +kernel)⟩

/-- A sentence of the grammar that is not read.  The root is taken as an
operator between `1` and `4`, and the sum then waits for its second operand. -/
theorem parse_eq_error_of_root_behind_one :
    Sentence (Transcript.ofSource "suma 1 y raiz de 4").tokens
        [.binary .add (.number "1" "1") (.unary .root (.number "4" "4"))] ∧
      parse (Transcript.ofSource "suma 1 y raiz de 4").tokens = .error .unexpectedEndOfInput := by
  have htokens : (Transcript.ofSource "suma 1 y raiz de 4").tokens =
      [⟨.operator .add, "+", "suma", ⟨0, 4⟩⟩, ⟨.number, "1", "1", ⟨5, 6⟩⟩,
        ⟨.sequence, "y", "y", ⟨7, 8⟩⟩, ⟨.operator .root, "√", "raiz", ⟨9, 13⟩⟩,
        ⟨.preposition, "con", "de", ⟨14, 16⟩⟩, ⟨.number, "4", "4", ⟨17, 18⟩⟩] := by
    decide +kernel
  have hconnector : ∀ token : Token, token.isConnector = true → Filler [token] :=
    fun token htoken => filler_cons.mpr ⟨htoken, filler_nil⟩
  refine ⟨?_, by decide +kernel⟩
  rw [htokens]
  exact .last (.operation (.term (.binary rfl rfl filler_nil (.term (.number rfl))
    (hconnector _ rfl) (.term (.unary rfl rfl (hconnector _ rfl) (.term (.number rfl)))))))

end Grammar
end SpokenArithmetic
