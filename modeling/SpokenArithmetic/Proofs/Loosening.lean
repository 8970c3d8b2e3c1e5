import SpokenArithmetic.Proofs.Joining
import SpokenArithmetic.Proofs.Judgement

/-!
# One connector more

A connector can be put behind any token but a comma and a sign of assignment, as
long as it does not come in front of a sign of assignment.  There it changes
nothing, be the sentence right or wrong (`connector_inert`).  For the structure
this is a simulation: what is left to be read with the connector and without it
differs in the connector, or no longer differs (`Insertion.Loosens`), and every
reader keeps this.  For the meaning a connector is passed over within a segment
and between segments, and what is left is that the tokens behind it are one
position further.
-/

namespace SpokenArithmetic

/-- The position of a token behind which one more stands at `position`. -/
def indexBeside (position index : Nat) : Nat :=
  if position ≤ index then index + 1 else index

/-- A fault of structure in a sentence with one more token at `position`. -/
def ParseError.beside (position : Nat) : ParseError → ParseError
  | expectedTerm index found => expectedTerm (indexBeside position index) found
  | unexpectedEndOfInput => unexpectedEndOfInput
  | expectedSeparator index found => expectedSeparator (indexBeside position index) found

/-- A connector, and the tokens between which it is put. -/
structure Insertion where
  /-- The token in front of the connector. -/
  last : Token
  connector : Token
  /-- The tokens behind the connector. -/
  back : List Token
  connects : connector.isConnector = true
  follows : last.kind ≠ .comma ∧ last.kind ≠ .assign
  precedes : ∀ sign ∈ back.head?, sign.kind ≠ .assign

namespace Insertion

open Reading

variable {point : Insertion}

/-- Whether some tokens are the same with the connector and without it, or both
lists stand behind it. -/
inductive Loosens (point : Insertion) : List Token → List Token → Prop where
  | pending (front : List Token) :
      Loosens point (front ++ point.last :: point.back)
        (front ++ point.last :: point.connector :: point.back)
  | passed {rest : List Token} (h : rest.length ≤ point.back.length) : Loosens point rest rest

/-- Whether two faults are the same, with the connector or without it behind
the token at fault. -/
inductive SameFault (point : Insertion) : Fault → Fault → Prop where
  | expectedTerm {found : Token} {rest rest' : List Token}
      (h : point.Loosens (found :: rest) (found :: rest')) :
      SameFault point (.expectedTerm found rest) (.expectedTerm found rest')
  | unexpectedEndOfInput : SameFault point .unexpectedEndOfInput .unexpectedEndOfInput
  | expectedSeparator {found : Token} {rest rest' : List Token}
      (h : point.Loosens (found :: rest) (found :: rest')) :
      SameFault point (.expectedSeparator found rest) (.expectedSeparator found rest')

/-- Whether two outcomes are related values or the same fault. -/
inductive Same {α : Type} (point : Insertion) (Related : α → α → Prop) :
    Except Fault α → Except Fault α → Prop where
  | ok {value value' : α} (h : Related value value') : Same point Related (.ok value) (.ok value')
  | error {fault fault' : Fault} (h : point.SameFault fault fault') :
      Same point Related (.error fault) (.error fault')

/-- Whether the same tree has been read, and what is left differs in the
connector at most. -/
def SameReading (point : Insertion) (reading reading' : Reading Tree) : Prop :=
  reading.value = reading'.value ∧ point.Loosens reading.rest reading'.rest

theorem Same.map {α β : Type} {Related : α → α → Prop} {Related' : β → β → Prop}
    {outcome outcome' : Except Fault α} (h : point.Same Related outcome outcome') {f f' : α → β}
    (hf : ∀ value value', Related value value' → Related' (f value) (f' value')) :
    point.Same Related' (outcome.map f) (outcome'.map f') := by
  cases h with
  | ok h => exact .ok (hf _ _ h)
  | error h => exact .error h

/-! ## What is left to be read -/

namespace Loosens

variable {tokens tokens' : List Token}

theorem of_nil (h : point.Loosens [] tokens') : tokens' = [] := by
  generalize hnil : ([] : List Token) = tokens at h
  cases h with
  | pending front => simp at hnil
  | passed h => rfl

/-- Connectors in front are passed over, the one that is put in among them. -/
theorem skip (h : point.Loosens tokens tokens') :
    point.Loosens (skipConnectors tokens) (skipConnectors tokens') := by
  cases h with
  | passed h => exact .passed (Nat.le_trans (length_skipConnectors_le _) h)
  | pending front =>
      induction front with
      | nil =>
          by_cases hlast : point.last.isConnector = true
          · -- Both lists go on behind the connector.
            have hskip := length_skipConnectors_le point.back
            simpa [skipConnectors, hlast, point.connects] using Loosens.passed hskip
          · rw [Bool.not_eq_true] at hlast
            rw [List.nil_append, List.nil_append, skipConnectors_cons hlast,
              skipConnectors_cons hlast]
            exact .pending []
      | cons token front ih =>
          by_cases htoken : token.isConnector = true
          · simpa [skipConnectors, htoken] using ih
          · rw [Bool.not_eq_true] at htoken
            rw [List.cons_append, List.cons_append, skipConnectors_cons htoken,
              skipConnectors_cons htoken]
            exact .pending (token :: front)

/-- The first token is the same.  Behind it the connector may come at once. -/
theorem of_cons {token : Token} {rest : List Token} (h : point.Loosens (token :: rest) tokens') :
    ∃ rest', tokens' = token :: rest' ∧
      point.Loosens (skipConnectors rest) (skipConnectors rest') ∧
      (point.Loosens rest rest' ∨ token = point.last ∧ rest = point.back ∧
        rest' = point.connector :: point.back) := by
  generalize hcons : token :: rest = tokens at h
  cases h with
  | passed h =>
      rw [← hcons] at h ⊢
      have hrest : point.Loosens rest rest := .passed (Nat.le_of_succ_le h)
      exact ⟨rest, rfl, hrest.skip, Or.inl hrest⟩
  | pending front =>
      cases front with
      | nil =>
          obtain ⟨rfl, rfl⟩ := List.cons.inj hcons
          refine ⟨_, rfl, ?_, Or.inr ⟨rfl, rfl, rfl⟩⟩
          have hskip := length_skipConnectors_le point.back
          simpa [skipConnectors, point.connects] using Loosens.passed hskip
      | cons first front =>
          obtain ⟨rfl, rfl⟩ := List.cons.inj hcons
          have hrest : point.Loosens (front ++ point.last :: point.back)
            (front ++ point.last :: point.connector :: point.back) := .pending front
          exact ⟨_, rfl, hrest.skip, Or.inl hrest⟩

/-- Behind a token that the connector cannot follow it does not come at once. -/
theorem tail {token : Token} {rest rest' : List Token}
    (h : point.Loosens (token :: rest) (token :: rest'))
    (hkind : token.kind = .comma ∨ token.kind = .assign) : point.Loosens rest rest' := by
  obtain ⟨_, hcons, -, hrest | ⟨rfl, -, -⟩⟩ := h.of_cons
  · obtain ⟨-, rfl⟩ := List.cons.inj hcons
    exact hrest
  · rcases hkind with hcomma | hassign
    · exact absurd hcomma point.follows.1
    · exact absurd hassign point.follows.2

theorem head?_eq (h : point.Loosens tokens tokens') : tokens'.head? = tokens.head? := by
  cases tokens with
  | nil => rw [h.of_nil]
  | cons token rest =>
      obtain ⟨rest', rfl, -, -⟩ := h.of_cons
      rfl

/-- The connector opens no assignment. -/
theorem ne_assign {token : Token} {rest rest' : List Token}
    (h : point.Loosens (token :: rest) (token :: rest'))
    (hrest : ∀ sign ∈ rest.head?, sign.kind ≠ .assign) :
    ∀ sign ∈ rest'.head?, sign.kind ≠ .assign := by
  obtain ⟨_, hcons, -, hloosens | ⟨-, -, rfl⟩⟩ := h.of_cons
  · obtain ⟨-, rfl⟩ := List.cons.inj hcons
    rwa [hloosens.head?_eq]
  · obtain ⟨-, rfl⟩ := List.cons.inj hcons
    rintro sign ⟨⟩
    exact (inner_of_isConnector point.connects).2

/-- Where an assignment is opened without the connector it is opened with it. -/
theorem of_assign {token sign : Token} {rest rest' : List Token}
    (h : point.Loosens (token :: sign :: rest) (token :: rest')) (hsign : sign.kind = .assign) :
    ∃ rest'', rest' = sign :: rest'' ∧ point.Loosens rest rest'' := by
  obtain ⟨_, hcons, -, hloosens | ⟨-, hback, -⟩⟩ := h.of_cons
  · obtain ⟨-, rfl⟩ := List.cons.inj hcons
    obtain ⟨rest'', rfl, -, -⟩ := hloosens.of_cons
    exact ⟨rest'', rfl, hloosens.tail (Or.inr hsign)⟩
  · exact absurd hsign (point.precedes sign (by rw [← hback]; rfl))

/-- Behind the connector the lists are the same, and in front of it one is
longer. -/
theorem length_cases (h : point.Loosens tokens tokens') :
    tokens.length ≤ point.back.length ∧ tokens' = tokens ∨
      point.back.length < tokens.length ∧ tokens'.length = tokens.length + 1 := by
  cases h with
  | passed h => exact Or.inl ⟨h, rfl⟩
  | pending front =>
      refine Or.inr ⟨?_, ?_⟩
      · simp only [List.length_append, List.length_cons]
        omega
      · simp only [List.length_append, List.length_cons]
        omega

/-- The first token of what is left, counted from the start of the sentence. -/
theorem index_eq (h : point.Loosens tokens tokens') {size : Nat}
    (hsize : point.back.length < size) :
    size + 1 - tokens'.length = indexBeside (size - point.back.length) (size - tokens.length) := by
  unfold indexBeside
  rcases h.length_cases with ⟨hpassed, rfl⟩ | ⟨hpending, hlength⟩
  · rw [if_pos (by omega)]
    omega
  · rw [if_neg (by omega)]
    omega

end Loosens

/-! ## Reading with one connector more -/

/-- What stands behind a term is read in the same way, if operations from fewer
tokens are. -/
theorem same_chain {rest rest' : List Token}
    (hrest : point.Loosens (skipConnectors rest) (skipConnectors rest'))
    (ih : ∀ tokens tokens', tokens.length ≤ rest.length → point.Loosens tokens tokens' →
      point.Same point.SameReading (operation tokens) (operation tokens')) (left : Tree) :
    point.Same point.SameReading (chain left rest) (chain left rest') := by
  have hlength := length_skipConnectors_le rest
  cases hskip : skipConnectors rest with
  | nil =>
      rw [hskip] at hrest
      rw [chain_of_settled hskip trivial, chain_of_settled hrest.of_nil trivial]
      exact .ok ⟨rfl, .passed (Nat.zero_le _)⟩
  | cons sign after =>
      rw [hskip] at hrest hlength
      obtain ⟨after', hskip', hafter, -⟩ := hrest.of_cons
      cases hsign : sign.operator? with
      | none =>
          have hsettled : ∀ tokens, Settled (sign :: tokens) := fun _ =>
            ⟨isConnector_of_skipConnectors hskip, hsign⟩
          rw [chain_of_settled hskip (hsettled after), chain_of_settled hskip' (hsettled after')]
          rw [hskip'] at hrest
          exact .ok ⟨rfl, hrest⟩
      | some op =>
          have hkind := kind_of_operator? hsign
          have hright := length_skipConnectors_le after
          rw [List.length_cons] at hlength
          rw [chain_of_operator hskip hkind, chain_of_operator hskip' hkind]
          refine (ih _ _ (by omega) hafter).map ?_
          rintro right right' ⟨hvalue, hbehind⟩
          exact ⟨congrArg (Tree.binary op left) hvalue, hbehind⟩

/-- Both lists are read as the same operation, or have the same fault. -/
theorem same_operation {tokens tokens' : List Token} (h : point.Loosens tokens tokens') :
    point.Same point.SameReading (operation tokens) (operation tokens') := by
  induction hlength : tokens.length using Nat.strongRecOn generalizing tokens tokens' with
  | _ length ih =>
      subst hlength
      cases tokens with
      | nil =>
          rw [h.of_nil, operation_nil]
          exact .error .unexpectedEndOfInput
      | cons token rest =>
          obtain ⟨rest', rfl, hskip, -⟩ := h.of_cons
          have hlength := length_skipConnectors_le rest
          have hinner : ∀ tokens tokens', tokens.length ≤ rest.length →
              point.Loosens tokens tokens' →
                point.Same point.SameReading (operation tokens) (operation tokens') :=
            fun tokens tokens' hle htokens => ih tokens.length (Nat.lt_succ_of_le hle) htokens rfl
          cases hleaf : token.leaf? with
          | some tree =>
              rw [operation_of_leaf? hleaf, operation_of_leaf? hleaf]
              exact same_chain hskip hinner tree
          | none =>
              cases hsign : token.operator? with
              | none =>
                  rw [operation_of_neither hleaf hsign, operation_of_neither hleaf hsign]
                  exact .error (.expectedTerm h)
              | some op =>
                  have hkind := kind_of_operator? hsign
                  have hfirst := hinner _ _ hlength hskip
                  rcases arity_eq_one_or_two op with harity | harity
                  · rw [operation_of_unary hkind harity, operation_of_unary hkind harity]
                    refine hfirst.map ?_
                    rintro operand operand' ⟨hvalue, hbehind⟩
                    exact ⟨congrArg (Tree.unary op) hvalue, hbehind⟩
                  · rw [operation_of_binary hkind harity, operation_of_binary hkind harity]
                    generalize operation (skipConnectors rest') = outcome' at hfirst ⊢
                    cases hread : operation (skipConnectors rest) with
                    | error fault =>
                        rw [hread] at hfirst
                        cases hfirst with
                        | error hfault => exact .error hfault
                    | ok first =>
                        -- The second operand is read from what the first one leaves.
                        have hshorter := length_rest_operation hread
                        rw [hread] at hfirst
                        cases hfirst with
                        | ok hsame =>
                            obtain ⟨hvalue, hbehind⟩ := hsame
                            simp only [Except.bind]
                            refine (hinner _ _ (by omega) hbehind).map ?_
                            rintro second second' ⟨hvalue', hbehind'⟩
                            refine ⟨?_, hbehind'⟩
                            show Tree.binary op _ _ = Tree.binary op _ _
                            rw [hvalue, hvalue']

theorem same_statement {tokens tokens' : List Token} (h : point.Loosens tokens tokens') :
    point.Same point.SameReading (statement tokens) (statement tokens') := by
  cases tokens with
  | nil =>
      rw [h.of_nil]
      exact same_operation (.passed (Nat.zero_le _))
  | cons target rest =>
      obtain ⟨rest', rfl, -, -⟩ := h.of_cons
      by_cases htarget : target.kind = .identifier
      · by_cases hopens : ∀ sign ∈ rest.head?, sign.kind ≠ .assign
        · rw [statement_of_operation hopens, statement_of_operation (h.ne_assign hopens)]
          exact same_operation h
        · cases rest with
          | nil => exact absurd (fun sign hsign => nomatch hsign) hopens
          | cons sign value =>
              have hsign : sign.kind = .assign := by simpa using hopens
              obtain ⟨value', rfl, hvalue⟩ := h.of_assign hsign
              rw [statement_of_assignment htarget hsign, statement_of_assignment htarget hsign]
              refine (same_operation hvalue).map ?_
              rintro reading reading' ⟨htree, hbehind⟩
              exact ⟨congrArg (Tree.assignment target.written) htree, hbehind⟩
      · rw [statement_of_kind_ne htarget, statement_of_kind_ne htarget]
        exact same_operation h

/-- Both lists are read as the same statements, or have the same fault. -/
theorem same_sentence {tokens tokens' : List Token} (h : point.Loosens tokens tokens') :
    point.Same Eq (sentence tokens) (sentence tokens') := by
  induction hlength : tokens.length using Nat.strongRecOn generalizing tokens tokens' with
  | _ length ih =>
      subst hlength
      cases tokens with
      | nil =>
          rw [h.of_nil, sentence_nil]
          exact .ok rfl
      | cons token rest =>
          obtain ⟨rest', rfl, -, -⟩ := h.of_cons
          have hsame := same_statement h
          rw [sentence_eq (List.cons_ne_nil token rest), sentence_eq (List.cons_ne_nil token rest')]
          generalize statement (token :: rest') = outcome' at hsame ⊢
          cases hread : statement (token :: rest) with
          | error fault =>
              rw [hread] at hsame
              cases hsame with
              | error hfault => exact .error hfault
          | ok reading =>
              have hshorter := length_rest_statement hread
              rw [hread] at hsame
              obtain ⟨first, left⟩ := reading
              cases hsame with
              | @ok _ reading' hreading =>
                  obtain ⟨first', left'⟩ := reading'
                  obtain ⟨rfl, hleft⟩ := hreading
                  cases left with
                  | nil =>
                      rw [show left' = [] from hleft.of_nil]
                      exact .ok rfl
                  | cons separator behind =>
                      obtain ⟨behind', hcons, -, -⟩ := hleft.of_cons
                      obtain rfl : left' = separator :: behind' := hcons
                      by_cases hcomma : separator.kind = .comma
                      · have hbehind := ih behind.length (by simp at hshorter ⊢; omega)
                          (hleft.tail (Or.inl hcomma)) rfl
                        simp only [hcomma, if_true]
                        generalize sentence behind = outcome at hbehind ⊢
                        generalize sentence behind' = outcome' at hbehind ⊢
                        cases hbehind with
                        | ok heq => exact .ok (congrArg (first :: ·) heq)
                        | error hfault => exact .error hfault
                      · simp only [hcomma, if_false]
                        exact .error (.expectedSeparator hleft)

theorem SameFault.locate_eq {fault fault' : Fault} (h : point.SameFault fault fault') {size : Nat}
    (hsize : point.back.length < size) :
    fault'.locate (size + 1) = (fault.locate size).beside (size - point.back.length) := by
  cases h with
  | unexpectedEndOfInput => rfl
  | expectedTerm h => exact congrArg (ParseError.expectedTerm · _) (h.index_eq hsize)
  | expectedSeparator h => exact congrArg (ParseError.expectedSeparator · _) (h.index_eq hsize)

/-- With the connector the structure of a sentence is the same, and so is its
fault if it has one. -/
theorem parse_eq (point : Insertion) (front : List Token) :
    parse (front ++ point.last :: point.connector :: point.back) =
      (parse (front ++ point.last :: point.back)).mapError (·.beside (front.length + 1)) := by
  have hlength : (front ++ point.last :: point.connector :: point.back).length =
      (front ++ point.last :: point.back).length + 1 := by
    simp only [List.length_append, List.length_cons]
    omega
  have hsize : point.back.length < (front ++ point.last :: point.back).length := by
    simp only [List.length_append, List.length_cons]
    omega
  have hposition : (front ++ point.last :: point.back).length - point.back.length =
      front.length + 1 := by
    simp only [List.length_append, List.length_cons]
    omega
  have hsame := same_sentence (.pending front : point.Loosens _ _)
  unfold parse
  rw [hlength, ← hposition]
  generalize sentence (front ++ point.last :: point.back) = outcome at hsame ⊢
  generalize sentence (front ++ point.last :: point.connector :: point.back) = outcome' at hsame ⊢
  cases hsame with
  | ok heq =>
      rw [heq]
      rfl
  | error hfault => exact congrArg Except.error (hfault.locate_eq hsize)

end Insertion

/-! ## Validation with one connector more -/

section Validation

variable {connector : Token} (hconnector : connector.isConnector = true)

include hconnector

/-- A connector is passed over within a segment, or it stays among the tokens
behind the segment. -/
theorem Segment.exists_ofTokens_connector (position : Nat) (scope : Scope)
    (front back : List Placed) :
    ∃ left, ofTokens scope (front ++ (connector, position) :: back) =
        { ofTokens scope (front ++ back) with rest := left } ∧
      (left = (ofTokens scope (front ++ back)).rest ∨
        ∃ behind, (ofTokens scope (front ++ back)).rest = behind ++ back ∧
          left = behind ++ (connector, position) :: back) := by
  rw [rest_ofTokens]
  rcases scan_append scope Tally.zero front with hends | ⟨-, hgoes⟩
  · refine ⟨(scan scope Tally.zero front).rest ++ (connector, position) :: back,
      ofTokens_congr ?_, Or.inr ⟨_, congrArg Segment.rest (hends back), rfl⟩⟩
    rw [hends, hends]
  · refine ⟨(scan scope Tally.zero (front ++ back)).rest, ofTokens_congr ?_, Or.inl rfl⟩
    rw [hgoes, hgoes, scan_of_isConnector hconnector]

/-- A connector in front of anything but a sign of assignment is not seen by
validation. -/
theorem Verdict.ofPlaced_connector (position : Nat) (scope : Scope) (front : List Placed)
    {back : List Placed} (hback : ∀ placed ∈ back.head?, placed.1.kind ≠ .assign) :
    ofPlaced scope (front ++ (connector, position) :: back) = ofPlaced scope (front ++ back) := by
  -- A segment can end anywhere in front of the connector, hence the induction on the length.
  induction hlength : front.length using Nat.strongRecOn generalizing front scope with
  | _ length ih =>
      subst hlength
      cases front with
      | nil => exact ofPlaced_of_isConnector hconnector scope position back
      | cons placed front =>
          obtain ⟨token, place⟩ := placed
          have hresume : ∀ (scope : Scope) (rest left : List Placed),
              rest.length < (front ++ back).length + 1 →
              (left = rest ∨ ∃ behind, rest = behind ++ back ∧
                left = behind ++ (connector, position) :: back) →
              ofPlaced scope left = ofPlaced scope rest := by
            rintro scope rest left hshorter (rfl | ⟨behind, rfl, rfl⟩)
            · rfl
            · rw [List.length_append, List.length_append] at hshorter
              exact ih behind.length (by rw [List.length_cons]; omega) scope behind rfl
          have hfront := ih front.length (Nat.lt_succ_self _) scope front rfl
          have hopen : ∀ placed ∈ ((connector, position) :: back).head?,
              placed.1.kind ≠ .assign := by
            rintro placed ⟨⟩
            exact (Reading.inner_of_isConnector hconnector).2
          rw [List.cons_append, List.cons_append, ofPlaced_cons, ofPlaced_cons,
            assigned?_append hopen, assigned?_append hback]
          cases hkind : token.kind with
          | identifier =>
              cases hassigned : assigned? front with
              | none => simp [hfront]
              | some value =>
                  obtain ⟨left, hsegment, hleft⟩ :=
                    Segment.exists_ofTokens_connector hconnector position scope value back
                  have hvalue := length_assigned? hassigned
                  have hbehind := Segment.length_rest_ofTokens_le scope (value ++ back)
                  rw [List.length_append] at hbehind
                  have hshorter : (Segment.ofTokens scope (value ++ back)).rest.length <
                      (front ++ back).length + 1 := by
                    rw [List.length_append]
                    omega
                  simp [hsegment, assignmentFaults, hresume _ _ left hshorter hleft]
          | operator op =>
              obtain ⟨left, hsegment, hleft⟩ :=
                Segment.exists_ofTokens_connector hconnector position scope
                  ((token, place) :: front) back
              have hbehind := Segment.length_rest_ofTokens_lt scope hkind place (front ++ back)
              simp only [List.cons_append] at hsegment hleft
              simp [hsegment, hresume _ _ left hbehind hleft]
          | number => exact hfront
          | sequence => exact hfront
          | preposition => exact hfront
          | comma => exact hfront
          | assign => exact hfront

end Validation

/-- The tokens of a sentence with one more at `position` are the old ones at
their new positions, and the new one. -/
theorem zipIdx_beside (front back : List Token) (connector : Token) :
    (front ++ connector :: back).zipIdx =
      front.zipIdx.map (Placed.moveTo id (indexBeside front.length)) ++
        (connector, front.length) ::
          (back.zipIdx front.length).map (Placed.moveTo id (indexBeside front.length)) := by
  have hid : ∀ tokens : List Token, tokens.map (Token.relocate id) = tokens := List.map_id
  have hfront : front.zipIdx = front.zipIdx.map (Placed.moveTo id (indexBeside front.length)) := by
    conv => lhs; rw [← hid front]
    apply zipIdx_map_relocate
    intro offset hoffset
    exact if_neg (by omega)
  have hback : back.zipIdx (front.length + 1) =
      (back.zipIdx front.length).map (Placed.moveTo id (indexBeside front.length)) := by
    conv => lhs; rw [← hid back]
    apply zipIdx_map_relocate
    intro offset hoffset
    show indexBeside front.length (front.length + offset) = front.length + 1 + offset
    rw [indexBeside, if_pos (Nat.le_add_right ..), Nat.add_right_comm]
  rw [List.zipIdx_append, List.zipIdx_cons, Nat.zero_add, ← hfront, ← hback]

/-- A connector in front of anything but a sign of assignment changes nothing
about the faults of a sentence and what it defines.  Only the positions behind
the connector are moved. -/
theorem validate_connector {connector : Token} (hconnector : connector.isConnector = true)
    (front : List Token) {back : List Token} (hback : ∀ sign ∈ back.head?, sign.kind ≠ .assign)
    (scope : Scope) :
    (validate (front ++ connector :: back) scope).diagnostics =
        (validate (front ++ back) scope).diagnostics ∧
      ∀ name, (validate (front ++ connector :: back) scope).scope.definition? name =
        (((validate (front ++ back) Scope.empty).scope.definition? name).map
          (indexBeside front.length)).or (scope.definition? name) := by
  have hplaced : ∀ scope, validate (front ++ connector :: back) scope =
      Verdict.ofPlaced scope
        ((front ++ back).zipIdx.map (Placed.moveTo id (indexBeside front.length))) := by
    intro scope
    rw [validate, zipIdx_beside, Verdict.ofPlaced_connector hconnector, List.zipIdx_append,
      List.map_append, Nat.zero_add]
    intro placed hplaced
    cases back with
    | nil => simp at hplaced
    | cons sign back =>
        simp at hplaced
        rw [← hplaced]
        exact hback sign rfl
  rw [hplaced]
  refine ⟨?_, fun name => Verdict.definition?_ofPlaced_map_moveTo id _ scope _ name⟩
  exact (Verdict.sameNames_ofPlaced_map_moveTo id _ (fun _ => rfl) _).2

theorem insertIdx_length_append (front back : List Token) (token : Token) :
    (front ++ back).insertIdx front.length token = front ++ token :: back := by
  induction front with
  | nil => exact List.insertIdx_zero
  | cons first front ih =>
      rw [List.cons_append, List.length_cons, List.insertIdx_succ_cons, ih, List.cons_append]

/-! ## The sentence with the connector -/

/-- What becomes of a sentence with one more token at `position`, which is that
the positions behind that token are counted anew. -/
structure InertAt (tokens : List Token) (token : Token) (position : Nat) : Prop where
  parsed :
    parse (tokens.insertIdx position token) = (parse tokens).mapError (·.beside position)
  diagnostics (scope : Scope) :
    (validate (tokens.insertIdx position token) scope).diagnostics =
      (validate tokens scope).diagnostics
  /-- A name that the sentence defines has its new position. -/
  defined (scope : Scope) (name : String) (index : Nat) :
    (validate tokens Scope.empty).scope.definition? name = some index →
      (validate tokens scope).scope.definition? name = some index ∧
        (validate (tokens.insertIdx position token) scope).scope.definition? name =
          some (indexBeside position index)
  /-- A name that the sentence does not define stays as it is. -/
  kept (scope : Scope) (name : String) :
    (validate tokens Scope.empty).scope.definition? name = none →
      (validate tokens scope).scope.definition? name = scope.definition? name ∧
        (validate (tokens.insertIdx position token) scope).scope.definition? name =
          scope.definition? name

/-- A connector behind any token but a comma and a sign of assignment, and not
in front of a sign of assignment, changes nothing else about a sentence. -/
theorem connector_inert {tokens : List Token} {connector : Token} {position : Nat}
    (hconnector : connector.isConnector = true) (hpositive : 0 < position)
    (hposition : position ≤ tokens.length)
    (hbefore : ∀ token ∈ tokens[position - 1]?, token.kind ≠ .comma ∧ token.kind ≠ .assign)
    (hbehind : ∀ token ∈ tokens[position]?, token.kind ≠ .assign) :
    InertAt tokens connector position := by
  obtain ⟨front, back, rfl, rfl⟩ : ∃ front back, tokens = front ++ back ∧
      front.length = position :=
    ⟨_, _, (List.take_append_drop position tokens).symm, List.length_take_of_le hposition⟩
  have hback : ∀ sign ∈ back.head?, sign.kind ≠ .assign := by
    rwa [List.getElem?_append_right (Nat.le_refl _), Nat.sub_self,
      ← List.head?_eq_getElem?] at hbehind
  have hvalidate := validate_connector hconnector front hback
  rw [← insertIdx_length_append] at hvalidate
  refine ⟨?_, fun scope => (hvalidate scope).1, ?_, ?_⟩
  · rcases List.eq_nil_or_concat front with rfl | ⟨front, last, rfl⟩
    · exact absurd hpositive (Nat.lt_irrefl 0)
    · have hlast : last.kind ≠ .comma ∧ last.kind ≠ .assign := hbefore last (by simp)
      have hparse := Insertion.parse_eq ⟨last, connector, back, hconnector, hlast, hback⟩ front
      rw [insertIdx_length_append]
      simpa using hparse
  · intro scope name index hindex
    constructor
    · rw [definition?_validate, hindex, Option.some_or]
    · rw [(hvalidate scope).2, hindex, Option.map_some, Option.some_or]
  · intro scope name hnone
    constructor
    · rw [definition?_validate, hnone, Option.none_or]
    · rw [(hvalidate scope).2, hnone, Option.map_none, Option.none_or]

/-- With a connector behind the root the operand too many is found one position
further, and the name behind it is defined one position further. -/
theorem connector_inert_of_surplus_operand :
    InertAt (Transcript.ofSource "x = raíz 9 9, z = x").tokens
        ⟨.preposition, "con", "de", ⟨10, 12⟩⟩ 3 ∧
      parse ((Transcript.ofSource "x = raíz 9 9, z = x").tokens.insertIdx 3
        ⟨.preposition, "con", "de", ⟨10, 12⟩⟩) = .error (.expectedSeparator 5 "9") ∧
      (validate ((Transcript.ofSource "x = raíz 9 9, z = x").tokens.insertIdx 3
        ⟨.preposition, "con", "de", ⟨10, 12⟩⟩) .empty).scope.definition? "z" = some 7 := by
  have htokens : (Transcript.ofSource "x = raíz 9 9, z = x").tokens =
      [⟨.identifier, "x", "x", ⟨0, 1⟩⟩, ⟨.assign, "=", "=", ⟨2, 3⟩⟩,
        ⟨.operator .root, "√", "raíz", ⟨4, 9⟩⟩, ⟨.number, "9", "9", ⟨10, 11⟩⟩,
        ⟨.number, "9", "9", ⟨12, 13⟩⟩, ⟨.comma, ",", ",", ⟨13, 14⟩⟩,
        ⟨.identifier, "z", "z", ⟨15, 16⟩⟩, ⟨.assign, "=", "=", ⟨17, 18⟩⟩,
        ⟨.identifier, "x", "x", ⟨19, 20⟩⟩] := by
    decide +kernel
  have hinert : InertAt (Transcript.ofSource "x = raíz 9 9, z = x").tokens
      ⟨.preposition, "con", "de", ⟨10, 12⟩⟩ 3 := by
    rw [htokens]
    exact connector_inert rfl (by decide) (by decide) (by decide) (by decide)
  refine ⟨hinert, ?_, ?_⟩
  · rw [hinert.parsed, htokens]
    decide +kernel
  · refine (hinert.defined .empty "z" 6 ?_).2
    rw [htokens]
    decide +kernel

end SpokenArithmetic
