import SpokenArithmetic.Acceptance
import SpokenArithmetic.Proofs.Clause

/-!
# Reading and counting agree

Reading goes down into operands and comes back from them.  The pass with one
counter keeps of all the open calls only the number of second operands that
are still to come.  That this is enough has two parts.  Over a phrase the pass
moves from a place where an operation has to open to a place behind one, with
the count unchanged (`run_phrase`).  And where the pass succeeds, there is a
phrase for it to go over (`exists_phrase_of_run`).
-/

namespace SpokenArithmetic
namespace Acceptance

open Grammar Reading

/-- Whether the pass accepts the tokens that are left. -/
def run (place : Place) (waiting : Nat) (tokens : List Token) : Bool :=
  acceptsFrom place waiting (tokens.map (·.kind))

/-! ## Single steps of the pass -/

theorem run_nil (place : Place) (waiting : Nat) :
    run place waiting [] = (place == .start || (place == .done && waiting == 0)) := by
  cases place <;> rfl

/-- The pass takes a single token, unless that token and the next one open an
assignment. -/
theorem run_cons {place : Place} {token : Token} {rest : List Token}
    (h : place = .start → token.kind = .identifier → ∀ sign ∈ rest.head?, sign.kind ≠ .assign)
    (waiting : Nat) :
    run place waiting (token :: rest) =
      match place.step waiting token.kind with
      | some (next, count) => run next count rest
      | none => false := by
  refine acceptsFrom.eq_3 place waiting token.kind (rest.map (·.kind)) ?_
  intro kinds hstart hidentifier hkinds
  cases rest with
  | nil => cases hkinds
  | cons sign rest => exact h hstart hidentifier sign rfl (List.cons.inj hkinds).1

theorem run_value_cons (waiting : Nat) (token : Token) (rest : List Token) :
    run .value waiting (token :: rest) =
      match openTerm waiting token.kind with
      | some (next, count) => run next count rest
      | none => false :=
  run_cons (fun h => by cases h) waiting

theorem run_need_cons (waiting : Nat) (token : Token) (rest : List Token) :
    run .need waiting (token :: rest) =
      if token.isConnector = true then run .need waiting rest
      else run .value waiting (token :: rest) := by
  rw [run_cons (fun h => by cases h), run_value_cons, Place.step]
  by_cases h : token.kind.isConnector = true <;> simp [Token.isConnector, h]

theorem run_done_cons (waiting : Nat) (token : Token) (rest : List Token) :
    run .done waiting (token :: rest) =
      match Place.step .done waiting token.kind with
      | some (next, count) => run next count rest
      | none => false :=
  run_cons (fun h => by cases h) waiting

theorem run_start_of_assignment {target sign : Token} (htarget : target.kind = .identifier)
    (hsign : sign.kind = .assign) (waiting : Nat) (rest : List Token) :
    run .start waiting (target :: sign :: rest) = run .value waiting rest := by
  simp only [run, List.map_cons, htarget, hsign, acceptsFrom]

/-- In front of a statement an operation opens as it does behind a sign of
assignment. -/
theorem run_start_of_operation {token : Token} {rest : List Token}
    (h : ∀ sign ∈ rest.head?, sign.kind ≠ .assign) (waiting : Nat) :
    run .start waiting (token :: rest) = run .value waiting (token :: rest) := by
  rw [run_cons (fun _ _ => h), run_value_cons]
  rfl

theorem run_value_of_leaf? {token : Token} {tree : Tree} (h : token.leaf? = some tree)
    (waiting : Nat) (rest : List Token) :
    run .value waiting (token :: rest) = run .done waiting rest := by
  rw [run_value_cons]
  rcases kind_of_leaf? h with hkind | hkind <;> simp only [hkind, openTerm]

theorem run_value_of_unary {sign : Token} {op : Operator} (hsign : sign.kind = .operator op)
    (harity : op.arity = 1) (waiting : Nat) (rest : List Token) :
    run .value waiting (sign :: rest) = run .need waiting rest := by
  rw [run_value_cons]
  simp only [hsign, openTerm, harity, if_true]

theorem run_value_of_binary {sign : Token} {op : Operator} (hsign : sign.kind = .operator op)
    (harity : op.arity = 2) (waiting : Nat) (rest : List Token) :
    run .value waiting (sign :: rest) = run .need (waiting + 1) rest := by
  rw [run_value_cons]
  simp [hsign, openTerm, harity]

theorem run_value_of_neither {token : Token} (hleaf : token.leaf? = none)
    (hoperator : token.operator? = none) (waiting : Nat) (rest : List Token) :
    run .value waiting (token :: rest) = false := by
  rw [run_value_cons]
  unfold Token.leaf? at hleaf
  unfold Token.operator? at hoperator
  cases hkind : token.kind <;> simp_all [Kind.operator?, openTerm]

/-- Behind an operand an operator is taken as one between two operands, so
that nothing new is waited for. -/
theorem run_done_of_operator {sign : Token} {op : Operator} (hsign : sign.kind = .operator op)
    (waiting : Nat) (rest : List Token) :
    run .done waiting (sign :: rest) = run .need waiting rest := by
  rw [run_done_cons]
  simp only [hsign, Place.step]

theorem run_done_of_comma {separator : Token} (h : separator.kind = .comma) (waiting : Nat)
    (rest : List Token) :
    run .done waiting (separator :: rest) = (waiting == 0 && run .start 0 rest) := by
  rw [run_done_cons]
  by_cases hwaiting : waiting = 0 <;> simp [h, Place.step, hwaiting]

/-- Behind an operator and behind an operand connectors change nothing. -/
theorem run_need (waiting : Nat) (tokens : List Token) :
    run .need waiting tokens = run .value waiting (skipConnectors tokens) := by
  induction tokens with
  | nil => rfl
  | cons token rest ih =>
      rw [run_need_cons]
      by_cases h : token.isConnector = true
      · rw [if_pos h, ih, skipConnectors, skipConnectors, List.dropWhile_cons_of_pos h]
      · rw [if_neg h, skipConnectors_cons (Bool.not_eq_true _ ▸ h)]

theorem run_done (waiting : Nat) (tokens : List Token) :
    run .done waiting tokens = run .done waiting (skipConnectors tokens) := by
  induction tokens with
  | nil => rfl
  | cons token rest ih =>
      by_cases h : token.isConnector = true
      · have hstep : run .done waiting (token :: rest) = run .done waiting rest := by
          unfold Token.isConnector at h
          rw [run_done_cons]
          cases hkind : token.kind <;> simp_all [Kind.isConnector, Place.step]
        rw [hstep, ih, skipConnectors, skipConnectors, List.dropWhile_cons_of_pos h]
      · rw [skipConnectors_cons (Bool.not_eq_true _ ▸ h)]

/-- Where an operand has to follow, the second operand of an operator opens
like any other operation. -/
theorem run_done_succ_of_settled {tokens : List Token} (h : Settled tokens) (waiting : Nat) :
    run .done (waiting + 1) tokens = run .value waiting tokens := by
  cases tokens with
  | nil => rfl
  | cons token rest =>
      obtain ⟨hconnector, hoperator⟩ := h
      rw [run_done_cons, run_value_cons]
      unfold Token.isConnector at hconnector
      unfold Token.operator? at hoperator
      cases hkind : token.kind <;>
        simp_all [Kind.isConnector, Kind.operator?, Place.step, openTerm]

/-! ## Over a phrase -/

/-- Over a phrase the count comes back to where it was. -/
theorem run_phrase {tokens : List Token} {tree : Tree} (h : Phrase tokens tree) (waiting : Nat)
    (rest : List Token) : run .value waiting (tokens ++ rest) = run .done waiting rest := by
  induction h generalizing waiting rest with
  | leaf hleaf hfiller =>
      rw [List.cons_append, run_value_of_leaf? hleaf, run_done,
        skipConnectors_filler_append hfiller, ← run_done]
  | @continued token sign op filler filler' back left right hleaf hfiller hsign hfiller'
      hright ih =>
      simp only [List.cons_append, List.append_assoc]
      have hskip : skipConnectors (filler ++ sign :: (filler' ++ (back ++ rest))) =
          sign :: (filler' ++ (back ++ rest)) := by
        rw [skipConnectors_filler_append hfiller,
          skipConnectors_cons (isConnector_of_operator hsign)]
      rw [run_value_of_leaf? hleaf, run_done, hskip, run_done_of_operator hsign, run_need,
        hright.skipConnectors_filler_append hfiller', ih]
  | unary hsign harity hfiller hoperand ih =>
      rw [List.cons_append, List.append_assoc, run_value_of_unary hsign harity, run_need,
        hoperand.skipConnectors_filler_append hfiller, ih]
  | binary hsign harity hfiller hleft hright hback ihleft ihright =>
      -- One more operand is waited for over the first one, and the second one settles it.
      simp only [List.cons_append, List.append_assoc]
      rw [run_value_of_binary hsign harity, run_need,
        hleft.skipConnectors_filler_append hfiller, ihleft,
        run_done_succ_of_settled (hback.append hright.ne_nil rest), ihright]

/-- Where the pass succeeds there is a phrase, and behind it the pass goes on
with the count that it came with. -/
theorem exists_phrase_of_run {tokens : List Token} {waiting : Nat}
    (h : run .value waiting tokens = true) :
    ∃ front tree rest, tokens = front ++ rest ∧ Phrase front tree ∧ Settled rest ∧
      run .done waiting rest = true := by
  induction hlength : tokens.length using Nat.strongRecOn
    generalizing tokens waiting with
  | _ length ih =>
      subst hlength
      cases tokens with
      | nil => cases h
      | cons token rest =>
          have hskip := length_skipConnectors_le rest
          obtain ⟨filler, hfiller, hrest⟩ := exists_filler_append_skipConnectors rest
          cases hleaf : token.leaf? with
          | some tree =>
              -- An operand is a phrase by itself unless an operator goes on from it.
              rw [run_value_of_leaf? hleaf, run_done] at h
              have hstop : Settled (skipConnectors rest) → ∃ front tree rest',
                  token :: rest = front ++ rest' ∧ Phrase front tree ∧ Settled rest' ∧
                    run .done waiting rest' = true := fun hsettled =>
                ⟨token :: filler, tree, skipConnectors rest, by rw [List.cons_append, ← hrest],
                  .leaf hleaf hfiller, hsettled, h⟩
              cases hafter : skipConnectors rest with
              | nil => exact hstop (hafter ▸ trivial)
              | cons sign after =>
                  cases hoperator : sign.operator? with
                  | none => exact hstop (hafter ▸ ⟨isConnector_of_skipConnectors hafter, hoperator⟩)
                  | some op =>
                      have hsign := kind_of_operator? hoperator
                      obtain ⟨filler', hfiller', hafter'⟩ :=
                        exists_filler_append_skipConnectors after
                      have hskip' := length_skipConnectors_le after
                      rw [hafter, List.length_cons] at hskip
                      rw [hafter, run_done_of_operator hsign, run_need] at h
                      have hshorter : (skipConnectors after).length < (token :: rest).length := by
                        simp only [List.length_cons]
                        omega
                      obtain ⟨back, right, rest', hback, hright, hsettled, hrun⟩ :=
                        ih (skipConnectors after).length hshorter h rfl
                      refine ⟨token :: (filler ++ sign :: (filler' ++ back)), _, rest', ?_,
                        .continued hleaf hfiller hsign hfiller' hright, hsettled, hrun⟩
                      simp [← hback, ← hafter', ← hafter, ← hrest]
          | none =>
              cases hoperator : token.operator? with
              | none =>
                  rw [run_value_of_neither hleaf hoperator] at h
                  cases h
              | some op =>
                  have hsign := kind_of_operator? hoperator
                  rcases arity_eq_one_or_two op with harity | harity
                  · rw [run_value_of_unary hsign harity, run_need] at h
                    obtain ⟨front, operand, rest', hfront, hoperand, hsettled, hrun⟩ :=
                      ih (skipConnectors rest).length (by simp only [List.length_cons]; omega) h rfl
                    refine ⟨token :: (filler ++ front), _, rest', ?_,
                      .unary hsign harity hfiller hoperand, hsettled, hrun⟩
                    simp [← hfront, ← hrest]
                  · -- The first operand is found with one more to come, and then the second one.
                    rw [run_value_of_binary hsign harity, run_need] at h
                    obtain ⟨front, left, middle, hfront, hleft, hmiddle, hrun⟩ :=
                      ih (skipConnectors rest).length (by simp only [List.length_cons]; omega) h rfl
                    rw [run_done_succ_of_settled hmiddle] at hrun
                    have hshorter : middle.length < (token :: rest).length := by
                      have hlengths := congrArg List.length hfront
                      simp only [List.length_append, List.length_cons] at hlengths ⊢
                      omega
                    obtain ⟨back, right, rest', hback, hright, hsettled, hrun⟩ :=
                      ih middle.length hshorter hrun rfl
                    refine ⟨token :: (filler ++ (front ++ back)), _, rest', ?_,
                      .binary hsign harity hfiller hleft hright ?_, hsettled, hrun⟩
                    · simp [← hback, ← hfront, ← hrest]
                    · rw [hback] at hmiddle
                      exact hmiddle.of_append hright.ne_nil

/-! ## Over a sentence -/

/-- Over a statement the pass goes as it does over the operation in it. -/
theorem run_clause {operation : List Token → Tree → Prop} {waiting : Nat}
    (hinner : ∀ {tokens tree}, operation tokens tree → tokens ≠ [] ∧ Inner tokens)
    (hrun : ∀ {tokens tree}, operation tokens tree → ∀ rest,
      run .value 0 (tokens ++ rest) = run .done waiting rest)
    {tokens rest : List Token} {tree : Tree} (h : Clause operation tokens tree)
    (hrest : AtBreak rest) : run .start 0 (tokens ++ rest) = run .done waiting rest := by
  cases h with
  | assignment htarget hsign hvalue =>
      rw [List.cons_append, List.cons_append, run_start_of_assignment htarget hsign, hrun hvalue]
  | operation h =>
      rw [← hrun h]
      obtain ⟨hne, hinner⟩ := hinner h
      cases tokens with
      | nil => exact absurd rfl hne
      | cons token tokens => exact run_start_of_operation (hinner.head?_append hrest) 0

/-- The pass accepts every sentence that is made of operations which bring the
count back to where it was. -/
theorem accepts_of_joined {operation : List Token → Tree → Prop}
    (hinner : ∀ {tokens tree}, operation tokens tree → tokens ≠ [] ∧ Inner tokens)
    (hrun : ∀ {tokens tree}, operation tokens tree → ∀ rest,
      run .value 0 (tokens ++ rest) = run .done 0 rest)
    {tokens : List Token} {trees : List Tree} (h : Joined operation tokens trees) :
    accepts tokens = true := by
  change run .start 0 tokens = true
  induction h with
  | nil => rfl
  | @last tokens tree h =>
      rw [← List.append_nil tokens,
        run_clause hinner hrun h (show AtBreak [] from trivial)]
      rfl
  | @cons separator tokens rest tree trees h hseparator _ ih =>
      rw [run_clause hinner hrun h (show AtBreak (separator :: rest) from hseparator),
        run_done_of_comma hseparator, ih]
      rfl

theorem exists_clause_of_run {token : Token} {rest : List Token}
    (h : run .start 0 (token :: rest) = true) :
    ∃ front tree behind, token :: rest = front ++ behind ∧ Clause Phrase front tree ∧
      Settled behind ∧ run .done 0 behind = true := by
  by_cases hassign : ∃ sign value, rest = sign :: value ∧ token.kind = .identifier ∧
      sign.kind = .assign
  · obtain ⟨sign, value, rfl, htarget, hsign⟩ := hassign
    rw [run_start_of_assignment htarget hsign] at h
    obtain ⟨front, tree, behind, rfl, hphrase, hsettled, hrun⟩ := exists_phrase_of_run h
    exact ⟨token :: sign :: front, _, behind, rfl, .assignment htarget hsign hphrase,
      hsettled, hrun⟩
  · have hstart : run .start 0 (token :: rest) = run .value 0 (token :: rest) := by
      rw [run_cons ?_, run_value_cons]
      · rfl
      · intro _ htarget sign hsign hkind
        cases rest with
        | nil => cases hsign
        | cons second value =>
            cases hsign
            exact hassign ⟨sign, value, rfl, htarget, hkind⟩
    rw [hstart] at h
    obtain ⟨front, tree, behind, hfront, hphrase, hsettled, hrun⟩ := exists_phrase_of_run h
    exact ⟨front, tree, behind, hfront, .operation hphrase, hsettled, hrun⟩

/-- Where nothing is waited for, the pass goes on behind a statement only at a
comma. -/
theorem separator_of_run {token : Token} {rest : List Token} (hsettled : Settled (token :: rest))
    (h : run .done 0 (token :: rest) = true) :
    token.kind = .comma ∧ run .start 0 rest = true := by
  obtain ⟨hconnector, hoperator⟩ := hsettled
  rw [run_done_cons] at h
  unfold Token.isConnector at hconnector
  unfold Token.operator? at hoperator
  cases hkind : token.kind <;> simp_all [Kind.isConnector, Kind.operator?, Place.step]

/-- Whatever the pass accepts is made of phrases. -/
theorem exists_joined_of_accepts {tokens : List Token} (h : accepts tokens = true) :
    ∃ trees, Joined Phrase tokens trees := by
  change run .start 0 tokens = true at h
  -- Behind each statement the pass is at the end or at a comma, with nothing waited for.
  induction hlength : tokens.length using Nat.strongRecOn generalizing tokens with
  | _ length ih =>
      subst hlength
      cases tokens with
      | nil => exact ⟨[], .nil⟩
      | cons token rest =>
          obtain ⟨front, tree, behind, hfront, hclause, hsettled, hrun⟩ := exists_clause_of_run h
          rw [hfront]
          cases behind with
          | nil => exact ⟨[tree], (List.append_nil front).symm ▸ .last hclause⟩
          | cons separator rest' =>
              obtain ⟨hseparator, hrest'⟩ := separator_of_run hsettled hrun
              have hshorter : rest'.length < (token :: rest).length := by
                rw [hfront]
                simp only [List.length_append, List.length_cons]
                omega
              obtain ⟨trees, hjoined⟩ := ih rest'.length hshorter hrest' rfl
              exact ⟨tree :: trees, .cons hclause hseparator hjoined⟩

theorem exists_joined_iff {tokens : List Token} :
    (∃ trees, Joined Phrase tokens trees) ↔ accepts tokens = true := by
  constructor
  · rintro ⟨trees, h⟩
    exact accepts_of_joined (fun hphrase => ⟨hphrase.ne_nil, hphrase.inner⟩)
      (fun hphrase rest => run_phrase hphrase 0 rest) h
  · exact exists_joined_of_accepts

/-- A sentence has a structure exactly if the pass with one counter accepts
it. -/
theorem isOk_parse_eq_accepts (tokens : List Token) :
    (parse tokens).isOk = accepts tokens := by
  rw [Bool.eq_iff_iff, isOk_parse_iff]
  exact exists_joined_iff

end Acceptance
end SpokenArithmetic
