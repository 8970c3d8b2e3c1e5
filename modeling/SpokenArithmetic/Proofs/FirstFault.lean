import SpokenArithmetic.Proofs.Clause
import SpokenArithmetic.Transcript

/-!
# The first fault of a sentence

Reading never goes back, so what it has taken when it comes to a fault can
still become a sentence.  The tokens in front of a fault are described first
for one operation (`Opened`): an operation that has been opened and waits for a
term, in any number of operators that wait for operands.  With operands behind
it, as many as are waited for, it is a phrase (`Opened.exists_phrase`).  In
front of a token that opens no term reading stops there, whatever follows
(`Stops.operation_append`).  The statements before it change nothing
(`Finished.sentence_append`), so the fault that is reported for a sentence is
the earliest that there could be.
-/

namespace SpokenArithmetic
namespace Reading

open Grammar

/-- The tokens that one operation has taken where the next term has to stand. -/
inductive Opened : List Token → Prop where
  | nil : Opened []
  | continued {token sign : Token} {op : Operator} {filler filler' back : List Token}
      {left : Tree} (hleaf : token.leaf? = some left) (hfiller : Filler filler)
      (hsign : sign.kind = .operator op) (hfiller' : Filler filler') (hback : Opened back) :
      Opened (token :: (filler ++ sign :: (filler' ++ back)))
  | first {sign : Token} {op : Operator} {filler back : List Token}
      (hsign : sign.kind = .operator op) (hfiller : Filler filler) (hback : Opened back) :
      Opened (sign :: (filler ++ back))
  | second {sign : Token} {op : Operator} {filler front back : List Token} {left : Tree}
      (hsign : sign.kind = .operator op) (harity : op.arity = 2) (hfiller : Filler filler)
      (hleft : Phrase front left) (hback : Opened back) (hsettled : Settled back) :
      Opened (sign :: (filler ++ (front ++ back)))

/-- Whether no term opens in front of some tokens. -/
def Blocked : List Token → Prop
  | [] => True
  | token :: _ => token.leaf? = none ∧ token.operator? = none

/-- The fault of some tokens where a term has to stand. -/
def faultAt : List Token → Fault
  | [] => .unexpectedEndOfInput
  | token :: rest => .expectedTerm token rest

/-- Whether an operation stops behind the tokens `front`.  A connector stops it
only at its very start.  Of `rest` nothing but the first token matters. -/
structure Stops (front rest : List Token) : Prop where
  opened : Opened front
  blocked : Blocked rest
  settled : front ≠ [] → Settled rest

/-- The tokens in front of the operation of a statement. -/
inductive Lead : List Token → Prop where
  | nil : Lead []
  | assignment {target sign : Token} (htarget : target.kind = .identifier)
      (hsign : sign.kind = .assign) : Lead [target, sign]

/-- Whether a statement has a fault at the first token of `rest`, whatever is
behind that token, and could still go on in its place. -/
structure Halts (front rest : List Token) : Prop where
  fault : ∀ rest', rest'.head? = rest.head? →
    statement (front ++ rest') = .error (faultAt rest')
  completes : ∃ ending tree, ending ≠ [] ∧ Clause Phrase (front ++ ending) tree

/-- Statements with a comma behind each of them, and their trees. -/
inductive Finished : List Token → List Tree → Prop where
  | nil : Finished [] []
  | cons {separator : Token} {tokens rest : List Token} {tree : Tree} {trees : List Tree}
      (h : Clause Phrase tokens tree) (hseparator : separator.kind = .comma)
      (hrest : Finished rest trees) : Finished (tokens ++ separator :: rest) (tree :: trees)

/-! ## The faults of an operation -/

theorem operation_of_blocked {tokens : List Token} (h : Blocked tokens) :
    operation tokens = .error (faultAt tokens) := by
  cases tokens with
  | nil => exact operation_nil
  | cons token rest => exact operation_of_neither h.1 h.2 rest

theorem settled_of_skipConnectors {tokens rest : List Token}
    (hskip : skipConnectors tokens = rest) (h : Blocked rest) : Settled rest := by
  cases rest with
  | nil => trivial
  | cons token rest => exact ⟨isConnector_of_skipConnectors hskip, h.2⟩

/-- What an operation ends in front of can be put in front of more of the kind. -/
theorem Settled.append_settled {tokens rest : List Token} (h : Settled tokens)
    (hrest : Settled rest) : Settled (tokens ++ rest) := by
  by_cases hne : tokens = []
  · rw [hne]
    exact hrest
  · exact h.append hne rest

theorem exists_of_map_eq_error {α β : Type} {outcome : Except Fault α} {f : α → β} {fault : Fault}
    (h : outcome.map f = .error fault) : outcome = .error fault := by
  cases outcome with
  | error fault' =>
      cases h
      rfl
  | ok value => cases h

/-- The four ways in which no operation is read. -/
theorem operation_cons_eq_error {token : Token} {rest : List Token} {fault : Fault}
    (h : operation (token :: rest) = .error fault) :
    (token.leaf? = none ∧ token.operator? = none ∧ fault = .expectedTerm token rest) ∨
    (∃ left sign op after, token.leaf? = some left ∧ skipConnectors rest = sign :: after ∧
      sign.kind = .operator op ∧ operation (skipConnectors after) = .error fault) ∨
    (∃ op, token.kind = .operator op ∧ operation (skipConnectors rest) = .error fault) ∨
    (∃ op first, token.kind = .operator op ∧ op.arity = 2 ∧
      operation (skipConnectors rest) = .ok first ∧ operation first.rest = .error fault) := by
  cases hleaf : token.leaf? with
  | some tree =>
      rw [operation_of_leaf? hleaf] at h
      cases hskip : skipConnectors rest with
      | nil =>
          rw [chain_of_settled hskip trivial] at h
          cases h
      | cons sign after =>
          cases hoperator : sign.operator? with
          | none =>
              rw [chain_of_settled hskip ⟨isConnector_of_skipConnectors hskip, hoperator⟩] at h
              cases h
          | some op =>
              have hsign := kind_of_operator? hoperator
              rw [chain_of_operator hskip hsign] at h
              exact Or.inr (Or.inl
                ⟨tree, sign, op, after, rfl, rfl, hsign, exists_of_map_eq_error h⟩)
  | none =>
      cases hoperator : token.operator? with
      | none =>
          rw [operation_of_neither hleaf hoperator] at h
          cases h
          exact Or.inl ⟨rfl, rfl, rfl⟩
      | some op =>
          have hsign := kind_of_operator? hoperator
          rcases arity_eq_one_or_two op with harity | harity
          · rw [operation_of_unary hsign harity] at h
            exact Or.inr (Or.inr (Or.inl ⟨op, hsign, exists_of_map_eq_error h⟩))
          · rw [operation_of_binary hsign harity] at h
            cases hfirst : operation (skipConnectors rest) with
            | error fault' =>
                rw [hfirst] at h
                cases h
                exact Or.inr (Or.inr (Or.inl ⟨op, hsign, rfl⟩))
            | ok first =>
                rw [hfirst] at h
                exact Or.inr (Or.inr (Or.inr
                  ⟨op, first, hsign, harity, rfl, exists_of_map_eq_error h⟩))

namespace Opened

/-- Connectors in front of an opened operation, or in front of the place where
its term has to stand, are passed over. -/
theorem skipConnectors_filler_append {filler tokens rest : List Token} (hfiller : Filler filler)
    (h : Opened tokens) (hrest : Settled rest) :
    skipConnectors (filler ++ (tokens ++ rest)) = tokens ++ rest := by
  rw [Reading.skipConnectors_filler_append hfiller]
  cases h with
  | nil => exact skipConnectors_of_settled hrest
  | continued hleaf _ _ _ _ => exact skipConnectors_cons (isConnector_of_leaf? hleaf) _
  | first hsign _ _ => exact skipConnectors_cons (isConnector_of_operator hsign) _
  | second hsign _ _ _ _ _ => exact skipConnectors_cons (isConnector_of_operator hsign) _

/-- Operands complete an opened operation, as many as are waited for. -/
theorem exists_phrase {tokens : List Token} (h : Opened tokens) {operand : Token} {leaf : Tree}
    (hoperand : operand.leaf? = some leaf) :
    ∃ count tree, Phrase (tokens ++ List.replicate (count + 1) operand) tree := by
  have hsingle : Phrase [operand] leaf := .leaf hoperand filler_nil
  have hsettled : ∀ rest, Settled (operand :: rest) := fun _ =>
    ⟨isConnector_of_leaf? hoperand, operator?_of_leaf? hoperand⟩
  induction h with
  | nil => exact ⟨0, leaf, hsingle⟩
  | continued hleaf hfiller hsign hfiller' _ ih =>
      obtain ⟨count, tree, hphrase⟩ := ih
      have h := Phrase.continued hleaf hfiller hsign hfiller' hphrase
      exact ⟨count, _, by simpa using h⟩
  | @first sign op filler back hsign hfiller _ ih =>
      obtain ⟨count, tree, hphrase⟩ := ih
      rcases arity_eq_one_or_two op with harity | harity
      · have h := Phrase.unary hsign harity hfiller hphrase
        exact ⟨count, _, by simpa using h⟩
      · -- The second operand is still to come.
        have h := Phrase.binary hsign harity hfiller hphrase hsingle (hsettled [])
        rw [List.append_assoc, ← List.replicate_succ', ← List.append_assoc] at h
        exact ⟨count + 1, _, h⟩
  | @second sign op filler front back left hsign harity hfiller hleft _ hback ih =>
      obtain ⟨count, tree, hphrase⟩ := ih
      have hstop := hback.append_settled (hsettled (List.replicate count operand))
      have h := Phrase.binary hsign harity hfiller hleft hphrase hstop
      exact ⟨count, _, by simpa using h⟩

end Opened

namespace Stops

theorem congr {front rest rest' : List Token} (h : Stops front rest)
    (hhead : rest'.head? = rest.head?) : Stops front rest' := by
  cases rest with
  | nil => exact List.head?_eq_none_iff.mp hhead ▸ h
  | cons found rest =>
      obtain ⟨behind, rfl⟩ := List.head?_eq_some_iff.mp hhead
      exact ⟨h.opened, h.blocked, h.settled⟩

/-- What an operation stops at comes behind connectors that were passed over. -/
theorem settled_of_skipConnectors {tokens front rest : List Token} (h : Stops front rest)
    (hskip : skipConnectors tokens = front ++ rest) : Settled rest := by
  by_cases hne : front = []
  · subst hne
    exact Reading.settled_of_skipConnectors hskip h.blocked
  · exact h.settled hne

/-- An opened operation has the fault of what it stops at. -/
theorem operation_append {front rest : List Token} (h : Stops front rest) :
    operation (front ++ rest) = .error (faultAt rest) := by
  obtain ⟨hopened, hblocked, hsettled⟩ := h
  induction hopened with
  | nil => exact operation_of_blocked hblocked
  | continued hleaf hfiller hsign hfiller' hback ih =>
      have hrest := hsettled (List.cons_ne_nil _ _)
      simp only [List.cons_append, List.append_assoc]
      rw [operation_of_leaf? hleaf, chain_of_operator ?_ hsign,
        hback.skipConnectors_filler_append hfiller' hrest, ih (fun _ => hrest)]
      · rfl
      · rw [Reading.skipConnectors_filler_append hfiller,
          skipConnectors_cons (isConnector_of_operator hsign)]
  | @first sign op filler back hsign hfiller hback ih =>
      have hrest := hsettled (List.cons_ne_nil _ _)
      rw [List.cons_append, List.append_assoc]
      rcases arity_eq_one_or_two op with harity | harity
      · rw [operation_of_unary hsign harity, hback.skipConnectors_filler_append hfiller hrest,
          ih (fun _ => hrest)]
        rfl
      · rw [operation_of_binary hsign harity, hback.skipConnectors_filler_append hfiller hrest,
          ih (fun _ => hrest)]
        rfl
  | @second sign op filler front back left hsign harity hfiller hleft _ hback ih =>
      have hrest := hsettled (List.cons_ne_nil _ _)
      -- The first operand ends as it did, since what it has stopped at is still there.
      have hstop := hback.append_settled hrest
      simp only [List.cons_append, List.append_assoc]
      rw [operation_of_binary hsign harity, hleft.skipConnectors_filler_append hfiller,
        hleft.operation_append hstop]
      simp only [Except.bind]
      rw [ih (fun _ => hrest)]
      rfl

end Stops

/-- Where no operation is read, an operation has been opened and has stopped. -/
theorem exists_stops_of_operation {tokens : List Token} {fault : Fault}
    (h : operation tokens = .error fault) :
    ∃ front rest, tokens = front ++ rest ∧ Stops front rest ∧ fault = faultAt rest := by
  induction hlength : tokens.length using Nat.strongRecOn generalizing tokens with
  | _ length ih =>
      subst hlength
      cases tokens with
      | nil =>
          rw [operation_nil] at h
          cases h
          exact ⟨[], [], rfl, ⟨.nil, trivial, fun _ => trivial⟩, rfl⟩
      | cons token rest =>
          have hskip := length_skipConnectors_le rest
          obtain ⟨filler, hfiller, hrest⟩ := exists_filler_append_skipConnectors rest
          rcases operation_cons_eq_error h with
            ⟨hleaf, hoperator, rfl⟩ |
            ⟨left, sign, op, after, hleaf, hsign, hkind, hright⟩ |
            ⟨op, hsign, hfirst⟩ |
            ⟨op, first, hsign, harity, hfirst, hsecond⟩
          · exact ⟨[], token :: rest, rfl, ⟨.nil, ⟨hleaf, hoperator⟩, fun h => absurd rfl h⟩, rfl⟩
          · obtain ⟨filler', hfiller', hafter⟩ := exists_filler_append_skipConnectors after
            have hlength := length_skipConnectors_le after
            rw [hsign, List.length_cons] at hskip
            obtain ⟨back, behind, hback, hstops, hfault⟩ :=
              ih (skipConnectors after).length (by simp only [List.length_cons]; omega) hright rfl
            refine ⟨token :: (filler ++ sign :: (filler' ++ back)), behind, ?_,
              ⟨.continued hleaf hfiller hkind hfiller' hstops.opened, hstops.blocked,
                fun _ => hstops.settled_of_skipConnectors hback⟩, hfault⟩
            simp [← hback, ← hafter, ← hsign, ← hrest]
          · obtain ⟨back, behind, hback, hstops, hfault⟩ :=
              ih (skipConnectors rest).length (by simp only [List.length_cons]; omega) hfirst rfl
            refine ⟨token :: (filler ++ back), behind, ?_,
              ⟨.first hsign hfiller hstops.opened, hstops.blocked,
                fun _ => hstops.settled_of_skipConnectors hback⟩, hfault⟩
            simp [← hback, ← hrest]
          · obtain ⟨front, hfront, hleft, hstopped⟩ := operation_eq_ok_iff.mp hfirst
            have hlength := length_rest_operation hfirst
            obtain ⟨back, behind, hback, hstops, hfault⟩ :=
              ih first.rest.length (by simp only [List.length_cons]; omega) hsecond rfl
            have hrestart := (skipConnectors_of_settled hstopped).trans hback
            have hopening : Settled back := by
              by_cases hne : back = []
              · subst hne
                trivial
              · exact (hback ▸ hstopped).of_append hne
            refine ⟨token :: (filler ++ (front ++ back)), behind, ?_,
              ⟨.second hsign harity hfiller hleft hstops.opened hopening, hstops.blocked,
                fun _ => hstops.settled_of_skipConnectors hrestart⟩, hfault⟩
            simp [← hback, ← hfront, ← hrest]

/-! ## The faults of a statement -/

/-- A token that can stand wherever an operand is waited for. -/
def one : Token := ⟨.number, "1", "1", ⟨0, 1⟩⟩

theorem leaf?_one : one.leaf? = some (.number "1" "1") := rfl

/-- An opened operation is no assignment, since it goes on behind an operand. -/
theorem Stops.statement_append {front rest : List Token} (h : Stops front rest) :
    statement (front ++ rest) = .error (faultAt rest) := by
  rw [← h.operation_append]
  cases h.opened with
  | nil =>
      cases rest with
      | nil => rfl
      | cons token rest =>
          refine statement_of_kind_ne (fun hkind => ?_) rest
          have hleaf := h.blocked.1
          simp [Token.leaf?, hkind] at hleaf
  | @continued token sign op filler filler' back left hleaf hfiller hsign hfiller' hback =>
      refine statement_of_operation (fun next hnext => ?_)
      cases filler with
      | nil =>
          cases hnext
          simp [hsign]
      | cons connector filler =>
          cases hnext
          exact (inner_filler hfiller _ (List.mem_cons_self ..)).2
  | first hsign _ _ => exact statement_of_kind_ne (by simp [hsign]) _
  | second hsign _ _ _ _ _ => exact statement_of_kind_ne (by simp [hsign]) _

theorem Stops.statement_of_assignment {target sign : Token} {front rest : List Token}
    (h : Stops front rest) (htarget : target.kind = .identifier) (hsign : sign.kind = .assign) :
    statement (target :: sign :: (front ++ rest)) = .error (faultAt rest) := by
  rw [Reading.statement_of_assignment htarget hsign, h.operation_append]
  rfl

theorem Lead.statement_append {lead front rest : List Token} (hlead : Lead lead)
    (h : Stops front rest) : statement (lead ++ (front ++ rest)) = .error (faultAt rest) := by
  cases hlead with
  | nil => exact h.statement_append
  | assignment htarget hsign => exact h.statement_of_assignment htarget hsign

theorem Lead.exists_clause {lead tokens : List Token} {value : Tree} (hlead : Lead lead)
    (h : Phrase tokens value) : ∃ tree, Clause Phrase (lead ++ tokens) tree := by
  cases hlead with
  | nil => exact ⟨value, .operation h⟩
  | assignment htarget hsign => exact ⟨_, .assignment htarget hsign h⟩

/-- Where no statement is read, no operation is read, be it a bare one or the
value of an assignment. -/
theorem exists_lead_of_statement {tokens : List Token} {fault : Fault}
    (h : statement tokens = .error fault) :
    ∃ lead following, tokens = lead ++ following ∧ Lead lead ∧
      operation following = .error fault := by
  unfold statement at h
  split at h
  · rename_i target sign following
    split at h
    · rename_i hkinds
      cases hvalue : operation following with
      | error fault' =>
          rw [hvalue] at h
          cases h
          exact ⟨[target, sign], following, rfl, .assignment hkinds.1 hkinds.2, hvalue⟩
      | ok value =>
          rw [hvalue] at h
          cases h
    · exact ⟨[], _, rfl, .nil, h⟩
  · exact ⟨[], _, rfl, .nil, h⟩

theorem exists_halts_of_statement {tokens : List Token} {fault : Fault}
    (h : statement tokens = .error fault) :
    ∃ front rest, tokens = front ++ rest ∧ Halts front rest ∧ fault = faultAt rest := by
  obtain ⟨lead, following, rfl, hlead, hoperation⟩ := exists_lead_of_statement h
  obtain ⟨front, rest, rfl, hstops, hfault⟩ := exists_stops_of_operation hoperation
  obtain ⟨count, value, hphrase⟩ := hstops.opened.exists_phrase leaf?_one
  obtain ⟨tree, hclause⟩ := hlead.exists_clause hphrase
  refine ⟨lead ++ front, rest, by simp, ⟨fun rest' hhead => ?_, ?_⟩, hfault⟩
  · rw [List.append_assoc]
    exact hlead.statement_append (hstops.congr hhead)
  · rw [← List.append_assoc] at hclause
    exact ⟨List.replicate (count + 1) one, tree, by simp, hclause⟩

/-- A statement ends in front of a token whatever follows that token. -/
theorem Clause.statement_congr {front rest : List Token} {found : Token} {tree : Tree}
    (hclause : Clause Phrase front tree)
    (h : statement (front ++ found :: rest) = .ok ⟨tree, found :: rest⟩) (rest' : List Token) :
    statement (front ++ found :: rest') = .ok ⟨tree, found :: rest'⟩ := by
  -- Only the token in front of the rest is looked at.
  obtain ⟨_, -, -, hfound⟩ := exists_clause_of_statement h
  have hsettled : Settled (found :: rest') := hfound
  cases hclause with
  | assignment htarget hsign hvalue =>
      rw [List.cons_append, List.cons_append, statement_of_assignment htarget hsign,
        hvalue.operation_append hsettled]
      rfl
  | operation hphrase =>
      rw [← hphrase.operation_append hsettled]
      cases front with
      | nil => exact absurd rfl hphrase.ne_nil
      | cons token tail =>
          by_cases hkind : token.kind = .identifier
          · refine statement_of_operation (fun sign hsign hassign => ?_)
            cases tail with
            | cons second tail =>
                cases hsign
                exact (inner_cons.mp (inner_cons.mp hphrase.inner).2).1.2 hassign
            | nil =>
                -- A sign of assignment behind the name would have been taken together with it.
                cases hsign
                rw [List.cons_append, List.nil_append, statement_of_assignment hkind hassign] at h
                obtain ⟨value, hvalue, heq⟩ := exists_of_map_eq_ok h
                have hlength := length_rest_operation hvalue
                have hrest : value.rest = found :: rest := congrArg Reading.rest heq
                rw [hrest, List.length_cons] at hlength
                omega
          · exact statement_of_kind_ne hkind _

/-! ## The faults of a sentence -/

theorem Finished.sentence_append {front : List Token} {trees : List Tree}
    (h : Finished front trees) (rest : List Token) :
    sentence (front ++ rest) = (sentence rest).map (trees ++ ·) := by
  induction h with
  | nil => cases hrest : sentence rest <;> simp [Except.map, hrest]
  | @cons separator tokens middle tree trees hclause hseparator _ ih =>
      rw [List.append_assoc, List.cons_append, sentence_eq (by simp),
        hclause.statement_append (show AtBreak (separator :: (middle ++ rest)) from hseparator)]
      simp only [hseparator, if_true, ih]
      cases sentence rest <;> rfl

/-- The first fault of a sentence comes behind some statements, in a statement
or directly behind one. -/
theorem exists_finished_of_sentence {tokens : List Token} {fault : Fault}
    (h : sentence tokens = .error fault) :
    ∃ front trees rest, tokens = front ++ rest ∧ Finished front trees ∧
      (rest ≠ [] ∧ statement rest = .error fault ∨
        ∃ tree found behind, statement rest = .ok ⟨tree, found :: behind⟩ ∧
          found.kind ≠ .comma ∧ fault = .expectedSeparator found behind) := by
  induction hlength : tokens.length using Nat.strongRecOn generalizing tokens with
  | _ length ih =>
      subst hlength
      by_cases hne : tokens = []
      · subst hne
        rw [sentence_nil] at h
        cases h
      rw [sentence_eq hne] at h
      cases hstatement : statement tokens with
      | error fault' =>
          rw [hstatement] at h
          cases h
          exact ⟨[], [], tokens, rfl, .nil, Or.inl ⟨hne, hstatement⟩⟩
      | ok reading =>
          obtain ⟨front, hfront, hclause, -⟩ := exists_clause_of_statement hstatement
          obtain ⟨first, left⟩ := reading
          rw [hstatement] at h
          cases left with
          | nil => cases h
          | cons separator rest =>
              dsimp only at h hfront
              split at h
              · rename_i hseparator
                cases hrest : sentence rest with
                | ok others =>
                    rw [hrest] at h
                    cases h
                | error fault' =>
                    rw [hrest] at h
                    cases h
                    have hlength : rest.length < tokens.length := by
                      rw [hfront]
                      simp only [List.length_append, List.length_cons]
                      omega
                    obtain ⟨before, trees, current, hbefore, hfinished, hfault⟩ :=
                      ih rest.length hlength hrest rfl
                    refine ⟨front ++ separator :: before, first :: trees, current, ?_,
                      .cons hclause hseparator hfinished, hfault⟩
                    rw [hfront, hbefore]
                    simp
              · rename_i hseparator
                cases h
                exact ⟨[], [], tokens, rfl, .nil,
                  Or.inr ⟨first, separator, rest, hstatement, hseparator, rfl⟩⟩

/-- The tokens in front of the first fault could go on to a sentence.  At the
end nothing else is said.  Otherwise the fault is that of the token behind them,
and is met whatever follows that token. -/
theorem exists_of_sentence_eq_error {tokens : List Token} {fault : Fault}
    (h : sentence tokens = .error fault) :
    (fault = .unexpectedEndOfInput ∧
      ∃ ending trees, ending ≠ [] ∧ sentence (tokens ++ ending) = .ok trees) ∨
    ∃ front found rest report, tokens = front ++ found :: rest ∧
      (report = Fault.expectedTerm ∨ report = Fault.expectedSeparator) ∧
      fault = report found rest ∧
      (∀ rest', sentence (front ++ found :: rest') = .error (report found rest')) ∧
      ∃ ending trees, sentence (front ++ ending) = .ok trees := by
  obtain ⟨before, trees, current, rfl, hfinished, hcases⟩ := exists_finished_of_sentence h
  rcases hcases with ⟨-, hstatement⟩ | ⟨tree, found, rest, hstatement, hcomma, hfault⟩
  · obtain ⟨front, rest, rfl, hhalts, rfl⟩ := exists_halts_of_statement hstatement
    obtain ⟨ending, tree, hne, hclause⟩ := hhalts.completes
    have hcomplete : sentence (before ++ front ++ ending) = .ok (trees ++ [tree]) := by
      rw [List.append_assoc, hfinished.sentence_append, (Joined.last hclause).sentence_eq_ok]
      rfl
    cases rest with
    | nil =>
        refine Or.inl ⟨rfl, ending, trees ++ [tree], hne, ?_⟩
        rw [List.append_nil]
        exact hcomplete
    | cons found rest =>
        refine Or.inr ⟨before ++ front, found, rest, .expectedTerm, by simp, Or.inl rfl, rfl,
          fun rest' => ?_, ending, _, hcomplete⟩
        rw [List.append_assoc, hfinished.sentence_append, sentence_eq (by simp),
          hhalts.fault (found :: rest') rfl]
        rfl
  · obtain ⟨front, rfl, hclause, -⟩ := exists_clause_of_statement hstatement
    refine Or.inr ⟨before ++ front, found, rest, .expectedSeparator, by simp, Or.inr rfl, hfault,
      fun rest' => ?_, [], trees ++ [tree], ?_⟩
    · rw [List.append_assoc, hfinished.sentence_append, sentence_eq (by simp),
        hclause.statement_congr hstatement rest']
      simp only [hcomma, if_false]
      rfl
    · rw [List.append_nil, hfinished.sentence_append, (Joined.last hclause).sentence_eq_ok]
      rfl

theorem parse_eq_error {tokens : List Token} {fault : Fault}
    (h : sentence tokens = .error fault) : parse tokens = .error (fault.locate tokens.length) := by
  rw [parse, h]
  rfl

theorem parse_eq_ok {tokens : List Token} {trees : List Tree} (h : sentence tokens = .ok trees) :
    parse tokens = .ok trees := by
  rw [parse, h]
  rfl

theorem isOk_parse_of_sentence {tokens : List Token} {trees : List Tree}
    (h : sentence tokens = .ok trees) : (parse tokens).isOk = true := by
  rw [parse_eq_ok h]
  rfl

theorem exists_fault_of_parse {tokens : List Token} {error : ParseError}
    (h : parse tokens = .error error) : ∃ fault, sentence tokens = .error fault := by
  cases hsentence : sentence tokens with
  | error fault => exact ⟨fault, rfl⟩
  | ok trees =>
      rw [parse_eq_ok hsentence] at h
      cases h

/-- The tokens in front of a fault say where it is. -/
theorem locate_append_cons {report : Token → List Token → Fault}
    (h : report = Fault.expectedTerm ∨ report = Fault.expectedSeparator) (front : List Token)
    (found : Token) (rest : List Token) :
    (report found rest).locate (front ++ found :: rest).length =
      (report found []).locate (front.length + 1) := by
  rcases h with rfl | rfl <;> simp [Fault.locate, Fault.rest]

/-- A fault of structure is the earliest that there could be.  Where it is that
of a token, every sentence with the same tokens up to this one has the same
fault, and with other tokens in its place the sentence could have had a
structure.  At the end of the tokens more of them could have given it one. -/
theorem parse_error_earliest {tokens : List Token} {error : ParseError}
    (h : parse tokens = .error error) :
    (∀ position, error.position? = some position →
      ∃ found, tokens[position]? = some found ∧ error.found? = some found.written ∧
        (∀ rest, parse (tokens.take (position + 1) ++ rest) = .error error) ∧
        ∃ ending, (parse (tokens.take position ++ ending)).isOk = true) ∧
    (error = .unexpectedEndOfInput →
      ∃ ending, ending ≠ [] ∧ (parse (tokens ++ ending)).isOk = true) := by
  obtain ⟨fault, hfault⟩ := exists_fault_of_parse h
  obtain rfl := Except.error.inj ((parse_eq_error hfault).symm.trans h)
  rcases exists_of_sentence_eq_error hfault with
    ⟨rfl, ending, trees, hne, hending⟩ |
    ⟨front, found, rest, report, rfl, hreport, rfl, hagain, ending, trees, hending⟩
  · refine ⟨fun position hposition => ?_, fun _ => ⟨ending, hne, isOk_parse_of_sentence hending⟩⟩
    cases hposition
  · have hlocate := locate_append_cons hreport front found
    have hposition : ((report found []).locate (front.length + 1)).position? =
        some front.length := by
      rcases hreport with rfl | rfl <;> simp [Fault.locate, Fault.rest, ParseError.position?]
    have hfound : ((report found []).locate (front.length + 1)).found? = some found.written := by
      rcases hreport with rfl | rfl <;> rfl
    rw [hlocate rest]
    refine ⟨fun position hsome => ?_, fun hend => ?_⟩
    · obtain rfl := Option.some.inj (hposition.symm.trans hsome)
      refine ⟨found, by simp, hfound, fun rest' => ?_, ending, ?_⟩
      · have htake : (front ++ found :: rest).take (front.length + 1) ++ rest' =
            front ++ found :: rest' := by
          simp [List.take_append, List.take_of_length_le]
        rw [htake, parse_eq_error (hagain rest'), hlocate rest']
      · rw [List.take_left]
        exact isOk_parse_of_sentence hending
    · rw [hend] at hposition
      cases hposition

/-- Behind the open root a comma is at fault.  The sum still waits for its
second operand, and the root for the one to its right. -/
theorem parse_error_earliest_of_open_root :
    parse (Transcript.ofSource "suma 1 y raíz, 2").tokens = .error (.expectedTerm 4 ",") ∧
      (∀ rest, parse ((Transcript.ofSource "suma 1 y raíz, 2").tokens.take 5 ++ rest) =
        .error (.expectedTerm 4 ",")) ∧
      ∃ ending, (parse ((Transcript.ofSource "suma 1 y raíz, 2").tokens.take 4 ++ ending)).isOk =
        true := by
  have hparse : parse (Transcript.ofSource "suma 1 y raíz, 2").tokens =
      .error (.expectedTerm 4 ",") := by
    decide +kernel
  obtain ⟨_, -, -, hagain, hcomplete⟩ := (parse_error_earliest hparse).1 4 rfl
  exact ⟨hparse, hagain, hcomplete⟩

end Reading
end SpokenArithmetic
