import SpokenArithmetic.Proofs.Phrase
import SpokenArithmetic.Reading.Sentence

/-!
# Clauses

A statement of a sentence is an operation or an assignment of one to a name,
and the statements stand between commas.  Both are said here for any set of
operations, since more than one description of operations is put into them.
With phrases for operations they describe exactly the sentences that are read,
which is `parse_eq_ok_iff`.
-/

namespace SpokenArithmetic
namespace Reading

open Grammar

/-- The tokens of a statement and its tree, where `operation` says which
operations there are. -/
inductive Clause (operation : List Token → Tree → Prop) : List Token → Tree → Prop where
  | assignment {target sign : Token} {tokens : List Token} {value : Tree}
      (htarget : target.kind = .identifier) (hsign : sign.kind = .assign)
      (hvalue : operation tokens value) :
      Clause operation (target :: sign :: tokens) (.assignment target.written value)
  | operation {tokens : List Token} {tree : Tree} (h : operation tokens tree) :
      Clause operation tokens tree

/-- The tokens of a sentence and the trees of its statements in order.  There
may be no statement at all, and one comma may stand behind the last. -/
inductive Joined (operation : List Token → Tree → Prop) : List Token → List Tree → Prop where
  | nil : Joined operation [] []
  | last {tokens : List Token} {tree : Tree} (h : Clause operation tokens tree) :
      Joined operation tokens [tree]
  | cons {separator : Token} {tokens rest : List Token} {tree : Tree} {trees : List Tree}
      (h : Clause operation tokens tree) (hseparator : separator.kind = .comma)
      (hrest : Joined operation rest trees) :
      Joined operation (tokens ++ separator :: rest) (tree :: trees)

/-- Whether some tokens hold neither a comma nor a sign of assignment, as the
tokens of an operation do. -/
def Inner (tokens : List Token) : Prop :=
  ∀ token ∈ tokens, token.kind ≠ .comma ∧ token.kind ≠ .assign

/-- Whether a statement can end in front of some tokens. -/
def AtBreak : List Token → Prop
  | [] => True
  | token :: _ => token.kind = .comma

/-! ## What an operation is made of -/

@[simp] theorem inner_nil : Inner [] := by
  simp [Inner]

@[simp] theorem inner_cons {token : Token} {tokens : List Token} :
    Inner (token :: tokens) ↔ (token.kind ≠ .comma ∧ token.kind ≠ .assign) ∧ Inner tokens := by
  simp [Inner]

@[simp] theorem inner_append {tokens rest : List Token} :
    Inner (tokens ++ rest) ↔ Inner tokens ∧ Inner rest := by
  simp only [Inner, List.mem_append]
  constructor
  · intro h
    exact ⟨fun token htoken => h token (Or.inl htoken), fun token htoken => h token (Or.inr htoken)⟩
  · rintro ⟨htokens, hrest⟩ token (htoken | htoken)
    · exact htokens token htoken
    · exact hrest token htoken

theorem inner_of_isConnector {token : Token} (h : token.isConnector = true) :
    token.kind ≠ .comma ∧ token.kind ≠ .assign := by
  constructor <;> intro hkind <;> simp [Token.isConnector, hkind, Kind.isConnector] at h

theorem inner_filler {filler : List Token} (h : Filler filler) : Inner filler :=
  fun token htoken => inner_of_isConnector (h token htoken)

theorem inner_of_leaf? {token : Token} {tree : Tree} (h : token.leaf? = some tree) :
    token.kind ≠ .comma ∧ token.kind ≠ .assign := by
  rcases kind_of_leaf? h with hkind | hkind <;> simp [hkind]

theorem inner_of_operator {token : Token} {op : Operator} (h : token.kind = .operator op) :
    token.kind ≠ .comma ∧ token.kind ≠ .assign := by
  simp [h]

theorem Phrase.inner {tokens : List Token} {tree : Tree} (h : Phrase tokens tree) :
    Inner tokens := by
  induction h with
  | leaf hleaf hfiller => exact inner_cons.mpr ⟨inner_of_leaf? hleaf, inner_filler hfiller⟩
  | continued hleaf hfiller hsign hfiller' _ ih =>
      simp only [inner_cons, inner_append]
      exact ⟨inner_of_leaf? hleaf, inner_filler hfiller, inner_of_operator hsign,
        inner_filler hfiller', ih⟩
  | unary hsign _ hfiller _ ih =>
      simp only [inner_cons, inner_append]
      exact ⟨inner_of_operator hsign, inner_filler hfiller, ih⟩
  | binary hsign _ hfiller _ _ _ ihleft ihright =>
      simp only [inner_cons, inner_append]
      exact ⟨inner_of_operator hsign, inner_filler hfiller, ihleft, ihright⟩

theorem AtBreak.settled {tokens : List Token} (h : AtBreak tokens) : Settled tokens := by
  cases tokens with
  | nil => trivial
  | cons token rest =>
      have hkind : token.kind = .comma := h
      constructor
      · simp [Token.isConnector, hkind, Kind.isConnector]
      · simp [Token.operator?, hkind, Kind.operator?]

/-- Behind the first token of an operation that ends at a break there is no
sign of assignment. -/
theorem Inner.head?_append {token : Token} {tokens rest : List Token}
    (h : Inner (token :: tokens)) (hrest : AtBreak rest) :
    ∀ sign ∈ (tokens ++ rest).head?, sign.kind ≠ .assign := by
  intro sign hsign
  cases tokens with
  | nil =>
      cases rest with
      | nil => cases hsign
      | cons separator rest =>
          cases hsign
          rw [show sign.kind = .comma from hrest]
          decide
  | cons second tokens =>
      cases hsign
      exact (inner_cons.mp (inner_cons.mp h).2).1.2

/-! ## Reading a statement -/

theorem statement_of_assignment {target sign : Token} (htarget : target.kind = .identifier)
    (hsign : sign.kind = .assign) (rest : List Token) :
    statement (target :: sign :: rest) =
      (operation rest).map fun value =>
        ⟨.assignment target.written value.value, value.rest⟩ := by
  rw [statement, if_pos ⟨htarget, hsign⟩]
  cases operation rest <;> rfl

/-- Without a sign of assignment behind its first token a statement is an
operation. -/
theorem statement_of_operation {token : Token} {rest : List Token}
    (h : ∀ sign ∈ rest.head?, sign.kind ≠ .assign) :
    statement (token :: rest) = operation (token :: rest) := by
  cases rest with
  | nil => rfl
  | cons sign rest =>
      have hsign : sign.kind ≠ .assign := h sign rfl
      rw [statement, if_neg (fun hkinds => hsign hkinds.2)]

theorem statement_of_kind_ne {token : Token} (h : token.kind ≠ .identifier) (rest : List Token) :
    statement (token :: rest) = operation (token :: rest) := by
  cases rest with
  | nil => rfl
  | cons sign rest => rw [statement, if_neg (fun hkinds => h hkinds.1)]

theorem Clause.ne_nil {tokens : List Token} {tree : Tree} (h : Clause Phrase tokens tree) :
    tokens ≠ [] := by
  cases h with
  | assignment => exact List.cons_ne_nil _ _
  | operation h => exact h.ne_nil

theorem Clause.kind_ne_comma {tokens : List Token} {tree : Tree} (h : Clause Phrase tokens tree) :
    ∀ token ∈ tokens, token.kind ≠ .comma := by
  cases h with
  | @assignment target sign tokens value htarget hsign hvalue =>
      intro token htoken
      rcases List.mem_cons.mp htoken with rfl | htoken
      · simp [htarget]
      rcases List.mem_cons.mp htoken with rfl | htoken
      · simp [hsign]
      exact (hvalue.inner token htoken).1
  | operation h =>
      intro token htoken
      exact (h.inner token htoken).1

/-- In front of a break a statement is read as its tree. -/
theorem Clause.statement_append {tokens : List Token} {tree : Tree}
    (h : Clause Phrase tokens tree) {rest : List Token} (hrest : AtBreak rest) :
    statement (tokens ++ rest) = .ok ⟨tree, rest⟩ := by
  cases h with
  | assignment htarget hsign hvalue =>
      rw [List.cons_append, List.cons_append, statement_of_assignment htarget hsign,
        hvalue.operation_append hrest.settled]
      rfl
  | operation h =>
      rw [← h.operation_append hrest.settled]
      have hinner := h.inner
      cases tokens with
      | nil => exact absurd rfl h.ne_nil
      | cons token tokens => exact statement_of_operation (hinner.head?_append hrest)

/-- A statement takes a clause, and stops where its operation cannot go on. -/
theorem exists_clause_of_statement {tokens : List Token} {reading : Reading Tree}
    (h : statement tokens = .ok reading) :
    ∃ front, tokens = front ++ reading.rest ∧ Clause Phrase front reading.value ∧
      Settled reading.rest := by
  have hoperation : operation tokens = .ok reading →
      ∃ front, tokens = front ++ reading.rest ∧ Clause Phrase front reading.value ∧
        Settled reading.rest := by
    intro hread
    obtain ⟨front, hfront, hphrase, hsettled⟩ := operation_eq_ok_iff.mp hread
    exact ⟨front, hfront, .operation hphrase, hsettled⟩
  unfold statement at h
  split at h
  · rename_i target sign rest
    split at h
    · rename_i hkinds
      cases hvalue : operation rest with
      | error fault =>
          rw [hvalue] at h
          cases h
      | ok value =>
          rw [hvalue] at h
          cases h
          obtain ⟨front, hfront, hphrase, hsettled⟩ := operation_eq_ok_iff.mp hvalue
          refine ⟨target :: sign :: front, ?_, .assignment hkinds.1 hkinds.2 hphrase, hsettled⟩
          rw [hfront]
          rfl
    · exact hoperation h
  · exact hoperation h

/-! ## Reading a sentence -/

theorem joined_of_sentence {tokens : List Token} {trees : List Tree}
    (h : sentence tokens = .ok trees) : Joined Phrase tokens trees := by
  -- The statements behind a comma are read from fewer tokens.
  induction hlength : tokens.length using Nat.strongRecOn
    generalizing tokens trees with
  | _ length ih =>
      subst hlength
      by_cases hne : tokens = []
      · subst hne
        rw [sentence_nil] at h
        cases h
        exact .nil
      rw [sentence_eq hne] at h
      cases hstatement : statement tokens with
      | error fault =>
          rw [hstatement] at h
          cases h
      | ok reading =>
          obtain ⟨front, hfront, hclause, -⟩ := exists_clause_of_statement hstatement
          obtain ⟨first, left⟩ := reading
          rw [hstatement] at h
          cases left with
          | nil =>
              cases h
              rw [hfront, List.append_nil]
              exact .last hclause
          | cons separator rest =>
              dsimp only at h hfront
              split at h
              · rename_i hseparator
                cases hrest : sentence rest with
                | error fault =>
                    rw [hrest] at h
                    cases h
                | ok others =>
                    rw [hrest] at h
                    cases h
                    have hlength : rest.length < tokens.length := by
                      rw [hfront]
                      simp only [List.length_append, List.length_cons]
                      omega
                    rw [hfront]
                    exact .cons hclause hseparator (ih rest.length hlength hrest rfl)
              · cases h

theorem Joined.sentence_eq_ok {tokens : List Token} {trees : List Tree}
    (h : Joined Phrase tokens trees) : sentence tokens = .ok trees := by
  induction h with
  | nil => exact sentence_nil
  | @last tokens tree hclause =>
      have hread := hclause.statement_append (show AtBreak [] from trivial)
      rw [List.append_nil] at hread
      rw [sentence_eq hclause.ne_nil, hread]
  | @cons separator tokens rest tree trees hclause hseparator _ ih =>
      have hread := hclause.statement_append (show AtBreak (separator :: rest) from hseparator)
      rw [sentence_eq (by simp), hread]
      simp only [hseparator, if_true, ih]

/-- A sentence is read exactly if it is made of phrases, and then as their
trees. -/
theorem parse_eq_ok_iff {tokens : List Token} {trees : List Tree} :
    parse tokens = .ok trees ↔ Joined Phrase tokens trees := by
  have hmap : parse tokens = .ok trees ↔ sentence tokens = .ok trees := by
    unfold parse
    cases sentence tokens <;> simp [Except.mapError]
  rw [hmap]
  exact ⟨joined_of_sentence, Joined.sentence_eq_ok⟩

theorem isOk_parse_iff {tokens : List Token} :
    (parse tokens).isOk = true ↔ ∃ trees, Joined Phrase tokens trees := by
  constructor
  · intro h
    cases hparse : parse tokens with
    | error fault =>
        rw [hparse] at h
        cases h
    | ok trees => exact ⟨trees, parse_eq_ok_iff.mp hparse⟩
  · rintro ⟨trees, h⟩
    rw [parse_eq_ok_iff.mpr h]
    rfl

end Reading
end SpokenArithmetic
