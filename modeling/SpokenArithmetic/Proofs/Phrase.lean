import Mathlib.Data.List.TakeWhile
import SpokenArithmetic.Grammar
import SpokenArithmetic.Reading

/-!
# Phrases

The tokens that one operation takes are described here without a reading
order.  The grammar of phrases is not ambiguous, for three reasons:

* the left side of an operator between two operands is a single operand;
* the second operand of an operator written in front opens with an operand,
  never with an operator;
* connectors behind a phrase belong to it, as far as they go.

The main statement is `operation_eq_ok_iff`.  An operation is read exactly if
the tokens begin with a phrase and neither a connector nor an operator stands
behind it, and the reading is then the tree of that phrase.
-/

namespace SpokenArithmetic

/-- The tree of a token that is an operand by itself. -/
def Token.leaf? (token : Token) : Option Tree :=
  match token.kind with
  | .number => some (.number token.normalized token.written)
  | .identifier => some (.identifier token.normalized)
  | _ => none

namespace Reading

open Grammar

/-- Whether neither a connector nor an operator stands in front of some
tokens.  An operation that is complete in front of them cannot go on. -/
def Settled : List Token → Prop
  | [] => True
  | token :: _ => token.isConnector = false ∧ token.operator? = none

/-- The tokens that one operation takes and the tree they are read as. -/
inductive Phrase : List Token → Tree → Prop where
  | leaf {token : Token} {filler : List Token} {tree : Tree}
      (hleaf : token.leaf? = some tree) (hfiller : Filler filler) :
      Phrase (token :: filler) tree
  | continued {token sign : Token} {op : Operator} {filler filler' back : List Token}
      {left right : Tree} (hleaf : token.leaf? = some left) (hfiller : Filler filler)
      (hsign : sign.kind = .operator op) (hfiller' : Filler filler')
      (hright : Phrase back right) :
      Phrase (token :: (filler ++ sign :: (filler' ++ back))) (.binary op left right)
  | unary {sign : Token} {op : Operator} {filler tokens : List Token} {operand : Tree}
      (hsign : sign.kind = .operator op) (harity : op.arity = 1)
      (hfiller : Filler filler) (hoperand : Phrase tokens operand) :
      Phrase (sign :: (filler ++ tokens)) (.unary op operand)
  | binary {sign : Token} {op : Operator} {filler front back : List Token}
      {left right : Tree} (hsign : sign.kind = .operator op) (harity : op.arity = 2)
      (hfiller : Filler filler) (hleft : Phrase front left)
      (hright : Phrase back right) (hback : Settled back) :
      Phrase (sign :: (filler ++ (front ++ back))) (.binary op left right)

/-! ## Tokens of each class -/

theorem kind_of_leaf? {token : Token} {tree : Tree} (h : token.leaf? = some tree) :
    token.kind = .number ∨ token.kind = .identifier := by
  unfold Token.leaf? at h
  split at h
  · rename_i hkind
    exact Or.inl hkind
  · rename_i hkind
    exact Or.inr hkind
  · cases h

theorem isConnector_of_leaf? {token : Token} {tree : Tree} (h : token.leaf? = some tree) :
    token.isConnector = false := by
  rcases kind_of_leaf? h with hkind | hkind <;> simp [Token.isConnector, hkind, Kind.isConnector]

theorem operator?_of_leaf? {token : Token} {tree : Tree} (h : token.leaf? = some tree) :
    token.operator? = none := by
  rcases kind_of_leaf? h with hkind | hkind <;> simp [Token.operator?, hkind, Kind.operator?]

theorem isConnector_of_operator {token : Token} {op : Operator}
    (h : token.kind = .operator op) : token.isConnector = false := by
  simp [Token.isConnector, h, Kind.isConnector]

theorem operator?_of_operator {token : Token} {op : Operator}
    (h : token.kind = .operator op) : token.operator? = some op := by
  simp [Token.operator?, h]

theorem arity_eq_one_or_two (op : Operator) : op.arity = 1 ∨ op.arity = 2 := by
  cases op <;> decide

theorem kind_of_operator? {token : Token} {op : Operator} (h : token.operator? = some op) :
    token.kind = .operator op :=
  (Kind.operator?_eq_some_iff token.kind op).mp h

/-! ## Passing over connectors -/

@[simp] theorem skipConnectors_nil : skipConnectors [] = [] := rfl

theorem skipConnectors_cons {token : Token} (h : token.isConnector = false)
    (rest : List Token) : skipConnectors (token :: rest) = token :: rest := by
  simp [skipConnectors, h]

theorem skipConnectors_filler_append {filler : List Token} (h : Filler filler)
    (tokens : List Token) : skipConnectors (filler ++ tokens) = skipConnectors tokens := by
  induction filler with
  | nil => rfl
  | cons token filler ih =>
      obtain ⟨htoken, hfiller⟩ := filler_cons.mp h
      simpa [skipConnectors, htoken] using ih hfiller

/-- What is passed over is a run of connectors. -/
theorem exists_filler_append_skipConnectors (tokens : List Token) :
    ∃ filler, Filler filler ∧ tokens = filler ++ skipConnectors tokens := by
  refine ⟨tokens.takeWhile Token.isConnector, ?_, ?_⟩
  · intro token htoken
    exact List.mem_takeWhile_imp htoken
  · exact (List.takeWhile_append_dropWhile ..).symm

theorem isConnector_of_skipConnectors {tokens rest : List Token} {token : Token}
    (h : skipConnectors tokens = token :: rest) : token.isConnector = false := by
  induction tokens with
  | nil => cases h
  | cons first tokens ih =>
      by_cases hfirst : first.isConnector = true
      · rw [skipConnectors, List.dropWhile_cons_of_pos hfirst] at h
        exact ih h
      · rw [Bool.not_eq_true] at hfirst
        rw [skipConnectors_cons hfirst] at h
        obtain ⟨rfl, -⟩ := List.cons.inj h
        exact hfirst

theorem skipConnectors_of_settled {tokens : List Token} (h : Settled tokens) :
    skipConnectors tokens = tokens := by
  cases tokens with
  | nil => rfl
  | cons token rest => exact skipConnectors_cons h.1 rest

theorem Settled.append {tokens : List Token} (h : Settled tokens) (hne : tokens ≠ [])
    (rest : List Token) : Settled (tokens ++ rest) := by
  cases tokens with
  | nil => exact absurd rfl hne
  | cons token tokens => exact h

theorem Settled.of_append {tokens rest : List Token} (h : Settled (tokens ++ rest))
    (hne : tokens ≠ []) : Settled tokens := by
  cases tokens with
  | nil => exact absurd rfl hne
  | cons token tokens => exact h

/-! ## One step of reading

The loop behind a term runs at most once, because its right-hand side leaves
nothing that it could go on with. -/

/-- Nothing is taken behind a term where nothing can be taken. -/
theorem chain_of_settled {tokens rest : List Token} (hskip : skipConnectors tokens = rest)
    (h : Settled rest) (left : Tree) : chain left tokens = .ok ⟨left, rest⟩ := by
  rw [chain_eq, hskip]
  cases rest with
  | nil => rfl
  | cons token rest => simp only [show token.operator? = none from h.2]

theorem settled_of_chain {left : Tree} {tokens : List Token} {reading : Reading Tree}
    (h : chain left tokens = .ok reading) : Settled reading.rest := by
  -- The loop goes on from what the operation to its right has left.
  induction hlength : tokens.length using Nat.strongRecOn
    generalizing left tokens reading with
  | _ length ih =>
      subst hlength
      rw [chain_eq] at h
      cases hskip : skipConnectors tokens with
      | nil =>
          rw [hskip] at h
          cases h
          trivial
      | cons sign rest =>
          rw [hskip] at h
          cases hsign : sign.operator? with
          | none =>
              simp only [hsign] at h
              cases h
              exact ⟨isConnector_of_skipConnectors hskip, hsign⟩
          | some op =>
              simp only [hsign] at h
              cases hright : operation (skipConnectors rest) with
              | error fault =>
                  rw [hright] at h
                  cases h
              | ok right =>
                  rw [hright] at h
                  have hrest := length_rest_operation hright
                  have hskipped := length_skipConnectors_le rest
                  have htokens := length_skipConnectors_le tokens
                  rw [hskip, List.length_cons] at htokens
                  exact ih right.rest.length (by omega) h rfl

/-- An operation stops only where it cannot go on. -/
theorem settled_of_operation {tokens : List Token} {reading : Reading Tree}
    (h : operation tokens = .ok reading) : Settled reading.rest := by
  rw [operation_eq] at h
  cases hterm : term tokens with
  | error fault =>
      rw [hterm] at h
      cases h
  | ok left =>
      rw [hterm] at h
      exact settled_of_chain h

/-- Behind an operation that has been read nothing more is taken. -/
theorem chain_of_operation {tokens : List Token} {reading : Reading Tree}
    (h : operation tokens = .ok reading) (left : Tree) :
    chain left reading.rest = .ok ⟨left, reading.rest⟩ := by
  have hsettled := settled_of_operation h
  exact chain_of_settled (skipConnectors_of_settled hsettled) hsettled left

theorem chain_of_operator {tokens rest : List Token} {sign : Token} {op : Operator}
    (hskip : skipConnectors tokens = sign :: rest) (hsign : sign.kind = .operator op)
    (left : Tree) :
    chain left tokens =
      (operation (skipConnectors rest)).map fun right =>
        ⟨.binary op left right.value, right.rest⟩ := by
  rw [chain_eq, hskip]
  simp only [operator?_of_operator hsign]
  cases hright : operation (skipConnectors rest) with
  | error fault => rfl
  | ok right => exact chain_of_operation hright _

theorem operation_of_leaf? {token : Token} {tree : Tree} (h : token.leaf? = some tree)
    (rest : List Token) : operation (token :: rest) = chain tree rest := by
  rw [operation_eq, term_cons]
  unfold Token.leaf? at h
  split at h
  · rename_i hkind
    cases h
    simp only [hkind]
  · rename_i hkind
    cases h
    simp only [hkind]
  · cases h

theorem operation_of_unary {sign : Token} {op : Operator} (hsign : sign.kind = .operator op)
    (harity : op.arity = 1) (rest : List Token) :
    operation (sign :: rest) =
      (operation (skipConnectors rest)).map fun operand =>
        ⟨.unary op operand.value, operand.rest⟩ := by
  rw [operation_eq, term_cons]
  simp only [hsign]
  cases hoperand : operation (skipConnectors rest) with
  | error fault => rfl
  | ok operand =>
      simp only [harity, if_true]
      exact chain_of_operation hoperand _

theorem operation_of_binary {sign : Token} {op : Operator} (hsign : sign.kind = .operator op)
    (harity : op.arity = 2) (rest : List Token) :
    operation (sign :: rest) =
      (operation (skipConnectors rest)).bind fun first =>
        (operation first.rest).map fun second =>
          ⟨.binary op first.value second.value, second.rest⟩ := by
  rw [operation_eq, term_cons]
  simp only [hsign]
  cases hfirst : operation (skipConnectors rest) with
  | error fault => rfl
  | ok first =>
      have hskip := skipConnectors_of_settled (settled_of_operation hfirst)
      simp only [harity, if_neg (show ¬(2 = 1) by decide), hskip]
      cases hsecond : operation first.rest with
      | error fault => simp [Except.bind, Except.map, hsecond]
      | ok second =>
          simp only [Except.bind, Except.map, hsecond]
          exact chain_of_operation hsecond _

/-- A token that opens no operation is at fault. -/
theorem operation_of_neither {token : Token} (hleaf : token.leaf? = none)
    (hoperator : token.operator? = none) (rest : List Token) :
    operation (token :: rest) = .error (.expectedTerm token rest) := by
  rw [operation_eq, term_cons]
  unfold Token.leaf? at hleaf
  unfold Token.operator? at hoperator
  cases hkind : token.kind <;> simp_all [Kind.operator?]

@[simp] theorem operation_nil : operation [] = .error .unexpectedEndOfInput := by
  rw [operation_eq, term_nil]

theorem exists_of_map_eq_ok {α β : Type} {outcome : Except Fault α} {f : α → β} {result : β}
    (h : outcome.map f = .ok result) : ∃ value, outcome = .ok value ∧ f value = result := by
  cases outcome with
  | error fault => cases h
  | ok value =>
      cases h
      exact ⟨value, rfl, rfl⟩

/-- The four ways in which an operation is read. -/
theorem operation_cons_eq_ok {token : Token} {rest : List Token} {reading : Reading Tree}
    (h : operation (token :: rest) = .ok reading) :
    (∃ tree, token.leaf? = some tree ∧ Settled (skipConnectors rest) ∧
      reading = ⟨tree, skipConnectors rest⟩) ∨
    (∃ left sign op after right, token.leaf? = some left ∧
      skipConnectors rest = sign :: after ∧ sign.kind = .operator op ∧
      operation (skipConnectors after) = .ok right ∧
      reading = ⟨.binary op left right.value, right.rest⟩) ∨
    (∃ op operand, token.kind = .operator op ∧ op.arity = 1 ∧
      operation (skipConnectors rest) = .ok operand ∧
      reading = ⟨.unary op operand.value, operand.rest⟩) ∨
    (∃ op first second, token.kind = .operator op ∧ op.arity = 2 ∧
      operation (skipConnectors rest) = .ok first ∧ operation first.rest = .ok second ∧
      reading = ⟨.binary op first.value second.value, second.rest⟩) := by
  cases hleaf : token.leaf? with
  | some tree =>
      rw [operation_of_leaf? hleaf] at h
      cases hskip : skipConnectors rest with
      | nil =>
          rw [chain_of_settled hskip trivial] at h
          cases h
          exact Or.inl ⟨tree, rfl, trivial, rfl⟩
      | cons sign after =>
          cases hoperator : sign.operator? with
          | none =>
              have hsettled : Settled (sign :: after) :=
                ⟨isConnector_of_skipConnectors hskip, hoperator⟩
              rw [chain_of_settled hskip hsettled] at h
              cases h
              exact Or.inl ⟨tree, rfl, hsettled, rfl⟩
          | some op =>
              have hsign := kind_of_operator? hoperator
              rw [chain_of_operator hskip hsign] at h
              obtain ⟨right, hright, rfl⟩ := exists_of_map_eq_ok h
              exact Or.inr (Or.inl ⟨tree, sign, op, after, right, rfl, rfl, hsign, hright, rfl⟩)
  | none =>
      cases hoperator : token.operator? with
      | none =>
          rw [operation_of_neither hleaf hoperator] at h
          cases h
      | some op =>
          have hsign := kind_of_operator? hoperator
          rcases arity_eq_one_or_two op with harity | harity
          · rw [operation_of_unary hsign harity] at h
            obtain ⟨operand, hoperand, rfl⟩ := exists_of_map_eq_ok h
            exact Or.inr (Or.inr (Or.inl ⟨op, operand, hsign, harity, hoperand, rfl⟩))
          · rw [operation_of_binary hsign harity] at h
            cases hfirst : operation (skipConnectors rest) with
            | error fault =>
                rw [hfirst] at h
                cases h
            | ok first =>
                rw [hfirst] at h
                obtain ⟨second, hsecond, rfl⟩ := exists_of_map_eq_ok h
                exact Or.inr (Or.inr (Or.inr
                  ⟨op, first, second, hsign, harity, rfl, hsecond, rfl⟩))

/-! ## Reading takes a phrase -/

namespace Phrase

theorem ne_nil {tokens : List Token} {tree : Tree} (h : Phrase tokens tree) : tokens ≠ [] := by
  cases h <;> exact List.cons_ne_nil _ _

/-- No connector stands in front of a phrase. -/
theorem skipConnectors_append {tokens : List Token} {tree : Tree} (h : Phrase tokens tree)
    (rest : List Token) : skipConnectors (tokens ++ rest) = tokens ++ rest := by
  cases h with
  | leaf hleaf _ => exact skipConnectors_cons (isConnector_of_leaf? hleaf) _
  | continued hleaf _ _ _ _ => exact skipConnectors_cons (isConnector_of_leaf? hleaf) _
  | unary hsign _ _ _ => exact skipConnectors_cons (isConnector_of_operator hsign) _
  | binary hsign _ _ _ _ _ => exact skipConnectors_cons (isConnector_of_operator hsign) _

theorem skipConnectors_filler_append {filler tokens : List Token} {tree : Tree}
    (hfiller : Filler filler) (h : Phrase tokens tree) (rest : List Token) :
    skipConnectors (filler ++ (tokens ++ rest)) = tokens ++ rest := by
  rw [Reading.skipConnectors_filler_append hfiller, h.skipConnectors_append]

/-- In front of tokens that end an operation a phrase is read as its tree. -/
theorem operation_append {tokens : List Token} {tree : Tree} (h : Phrase tokens tree)
    {rest : List Token} (hrest : Settled rest) :
    operation (tokens ++ rest) = .ok ⟨tree, rest⟩ := by
  induction h generalizing rest with
  | leaf hleaf hfiller =>
      rw [List.cons_append, operation_of_leaf? hleaf]
      refine chain_of_settled ?_ hrest _
      rw [Reading.skipConnectors_filler_append hfiller, skipConnectors_of_settled hrest]
  | continued hleaf hfiller hsign hfiller' hright ih =>
      simp only [List.cons_append, List.append_assoc]
      rw [operation_of_leaf? hleaf, chain_of_operator ?_ hsign,
        hright.skipConnectors_filler_append hfiller', ih hrest]
      · rfl
      · rw [Reading.skipConnectors_filler_append hfiller,
          skipConnectors_cons (isConnector_of_operator hsign)]
  | unary hsign harity hfiller hoperand ih =>
      rw [List.cons_append, List.append_assoc, operation_of_unary hsign harity,
        hoperand.skipConnectors_filler_append hfiller, ih hrest]
      rfl
  | binary hsign harity hfiller hleft hright hback ihleft ihright =>
      -- The first operand stops where the second one opens, since no operator stands there.
      simp only [List.cons_append, List.append_assoc]
      rw [operation_of_binary hsign harity, hleft.skipConnectors_filler_append hfiller,
        ihleft (hback.append hright.ne_nil rest)]
      simp only [Except.bind]
      rw [ihright hrest]
      rfl

end Phrase

/-- What an operation takes is a phrase. -/
theorem exists_phrase_of_operation {tokens : List Token} {reading : Reading Tree}
    (h : operation tokens = .ok reading) :
    ∃ front, tokens = front ++ reading.rest ∧ Phrase front reading.value := by
  -- Operations inside an operation are read from fewer tokens, but not from its own tail.
  induction hlength : tokens.length using Nat.strongRecOn
    generalizing tokens reading with
  | _ length ih =>
      subst hlength
      cases tokens with
      | nil => simp at h
      | cons token rest =>
          have hskip := length_skipConnectors_le rest
          obtain ⟨filler, hfiller, hrest⟩ := exists_filler_append_skipConnectors rest
          rcases operation_cons_eq_ok h with
            ⟨tree, hleaf, hsettled, rfl⟩ |
            ⟨left, sign, op, after, right, hleaf, hsign, hkind, hright, rfl⟩ |
            ⟨op, operand, hsign, harity, hoperand, rfl⟩ |
            ⟨op, first, second, hsign, harity, hfirst, hsecond, rfl⟩
          · exact ⟨token :: filler, by rw [List.cons_append, ← hrest], .leaf hleaf hfiller⟩
          · obtain ⟨filler', hfiller', hafter⟩ := exists_filler_append_skipConnectors after
            have hlength := length_skipConnectors_le after
            rw [hsign, List.length_cons] at hskip
            obtain ⟨back, hback, hphrase⟩ :=
              ih (skipConnectors after).length (by simp only [List.length_cons]; omega) hright rfl
            refine ⟨token :: (filler ++ sign :: (filler' ++ back)), ?_,
              .continued hleaf hfiller hkind hfiller' hphrase⟩
            simp [← hback, ← hafter, ← hsign, ← hrest]
          · obtain ⟨tokens, htokens, hphrase⟩ :=
              ih (skipConnectors rest).length (by simp only [List.length_cons]; omega) hoperand rfl
            refine ⟨token :: (filler ++ tokens), ?_, .unary hsign harity hfiller hphrase⟩
            simp [← htokens, ← hrest]
          · obtain ⟨front, hfront, hleft⟩ :=
              ih (skipConnectors rest).length (by simp only [List.length_cons]; omega) hfirst rfl
            have hlength := length_rest_operation hfirst
            obtain ⟨back, hback, hright⟩ :=
              ih first.rest.length (by simp only [List.length_cons]; omega) hsecond rfl
            -- What the second operand opens with is what the first one has stopped at.
            have hsettled : Settled back := by
              have h := settled_of_operation hfirst
              rw [hback] at h
              exact h.of_append hright.ne_nil
            refine ⟨token :: (filler ++ (front ++ back)), ?_,
              .binary hsign harity hfiller hleft hright hsettled⟩
            simp [← hback, ← hfront, ← hrest]

/-- An operation is read exactly if the tokens begin with a phrase that cannot
go on, and then its tree is the one that is read. -/
theorem operation_eq_ok_iff {tokens : List Token} {reading : Reading Tree} :
    operation tokens = .ok reading ↔
      ∃ front, tokens = front ++ reading.rest ∧ Phrase front reading.value ∧
        Settled reading.rest := by
  constructor
  · intro h
    obtain ⟨front, hfront, hphrase⟩ := exists_phrase_of_operation h
    exact ⟨front, hfront, hphrase, settled_of_operation h⟩
  · rintro ⟨front, hfront, hphrase, hsettled⟩
    rw [hfront]
    exact hphrase.operation_append hsettled

end Reading
end SpokenArithmetic
