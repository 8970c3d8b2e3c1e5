import SpokenArithmetic.Proofs.Checks
import SpokenArithmetic.Proofs.Decoding

/-!
# The sense of a sentence

A sentence says what the kinds and the normalized texts of its tokens say.  How its
words were written and where they stand shows in what is reported, but never in
what is understood.  To see this, the written texts are taken away, and what is
found is compared without them.  Reading commutes with this (`operation_map_plain`),
and so does validation (`Verdict.ofPlaced_map_unquoted`).  So two sentences of one
sense have the same printed trees or the same fault at the same place, they are
valid in the same scopes, and they define the same names at the same positions
(`analyze_of_sense`).
-/

namespace SpokenArithmetic

/-- What a token says, however it is written and wherever it stands. -/
def Token.sense (token : Token) : Kind × String :=
  (token.kind, token.normalized)

/-- A token that is written as it is normalized, and stands nowhere. -/
def Token.plain (token : Token) : Token where
  kind := token.kind
  normalized := token.normalized
  written := token.normalized
  span := ⟨0, 0⟩

/-- A fault of structure without the text of its token. -/
def ParseError.unquoted : ParseError → ParseError
  | expectedTerm position _ => expectedTerm position ""
  | unexpectedEndOfInput => unexpectedEndOfInput
  | expectedSeparator position _ => expectedSeparator position ""

/-- The printed trees of a sentence, or its fault of structure without the text of
the token at fault. -/
def printed (structured : Except ParseError (List Tree)) : Except ParseError (List String) :=
  (structured.map (List.map Tree.render)).mapError ParseError.unquoted

@[simp] theorem isOk_printed (structured : Except ParseError (List Tree)) :
    (printed structured).isOk = structured.isOk := by
  cases structured <;> rfl

/-! ## Reading plain tokens -/

namespace Reading

/-- What was read, as it is read from plain tokens. -/
def plain (reading : Reading Tree) : Reading Tree :=
  ⟨reading.value.plain, reading.rest.map Token.plain⟩

end Reading

/-- A fault, as it is found in plain tokens. -/
def Fault.plain : Fault → Fault
  | expectedTerm found rest => expectedTerm found.plain (rest.map Token.plain)
  | unexpectedEndOfInput => unexpectedEndOfInput
  | expectedSeparator found rest => expectedSeparator found.plain (rest.map Token.plain)

namespace Reading

/-- What comes of plain tokens, where `f` says this of what is read. -/
def plainly {α : Type} (f : α → α) (outcome : Except Fault α) : Except Fault α :=
  (outcome.map f).mapError Fault.plain

@[simp] theorem plainly_ok {α : Type} (f : α → α) (value : α) :
    plainly f (.ok value) = .ok (f value) := rfl

@[simp] theorem plainly_error {α : Type} (f : α → α) (fault : Fault) :
    plainly f (.error fault) = .error fault.plain := rfl

theorem plainly_map {α β : Type} {f : α → α} {f' : β → β} {g g' : α → β}
    (h : ∀ value, f' (g value) = g' (f value)) (outcome : Except Fault α) :
    (plainly f outcome).map g' = plainly f' (outcome.map g) := by
  cases outcome with
  | error fault => rfl
  | ok value => exact congrArg Except.ok (h value).symm

@[simp] theorem kind_plain (token : Token) : token.plain.kind = token.kind := rfl

theorem skipConnectors_map_plain (tokens : List Token) :
    skipConnectors (tokens.map Token.plain) = (skipConnectors tokens).map Token.plain := by
  rw [skipConnectors, skipConnectors, List.dropWhile_map]
  rfl

theorem leaf?_plain (token : Token) : token.plain.leaf? = token.leaf?.map Tree.plain := by
  unfold Token.leaf?
  rw [kind_plain]
  cases token.kind <;> rfl

theorem settled_map_plain {tokens : List Token} (h : Settled tokens) :
    Settled (tokens.map Token.plain) := by
  cases tokens with
  | nil => trivial
  | cons token rest => exact h

/-- What stands behind a term is read in the same way from plain tokens, if
operations from fewer tokens are. -/
theorem chain_map_plain {rest : List Token}
    (ih : ∀ tokens, tokens.length ≤ rest.length →
      operation (tokens.map Token.plain) = plainly plain (operation tokens)) (left : Tree) :
    chain left.plain (rest.map Token.plain) = plainly plain (chain left rest) := by
  have hskipped := skipConnectors_map_plain rest
  cases hskip : skipConnectors rest with
  | nil =>
      rw [hskip] at hskipped
      rw [chain_of_settled hskip trivial, chain_of_settled hskipped trivial]
      rfl
  | cons sign after =>
      rw [hskip] at hskipped
      cases hsign : sign.operator? with
      | none =>
          have hsettled : Settled (sign :: after) := ⟨isConnector_of_skipConnectors hskip, hsign⟩
          rw [chain_of_settled hskip hsettled,
            chain_of_settled hskipped (settled_map_plain hsettled)]
          rfl
      | some op =>
          have hkind := kind_of_operator? hsign
          have hlength := length_skipConnectors_le rest
          have hright := length_skipConnectors_le after
          rw [hskip, List.length_cons] at hlength
          rw [chain_of_operator hskip hkind, chain_of_operator hskipped hkind,
            skipConnectors_map_plain, ih _ (by omega)]
          refine plainly_map (fun right => ?_) _
          rfl

/-- From plain tokens an operation is read in the same way. -/
theorem operation_map_plain (tokens : List Token) :
    operation (tokens.map Token.plain) = plainly plain (operation tokens) := by
  induction hlength : tokens.length using Nat.strongRecOn generalizing tokens with
  | _ length ih =>
      subst hlength
      cases tokens with
      | nil =>
          rw [List.map_nil, operation_nil]
          rfl
      | cons token rest =>
          have hinner : ∀ tokens, tokens.length ≤ rest.length →
              operation (tokens.map Token.plain) = plainly plain (operation tokens) :=
            fun tokens hle => ih tokens.length (Nat.lt_succ_of_le hle) tokens rfl
          have hskip := length_skipConnectors_le rest
          have hleaf? := leaf?_plain token
          rw [List.map_cons]
          cases hleaf : token.leaf? with
          | some tree =>
              rw [hleaf] at hleaf?
              rw [operation_of_leaf? hleaf, operation_of_leaf? hleaf?]
              exact chain_map_plain hinner tree
          | none =>
              rw [hleaf] at hleaf?
              cases hsign : token.operator? with
              | none =>
                  have hsign? : token.plain.operator? = none := hsign
                  rw [operation_of_neither hleaf hsign, operation_of_neither hleaf? hsign?]
                  rfl
              | some op =>
                  have hkind := kind_of_operator? hsign
                  have hkind? : token.plain.kind = .operator op := hkind
                  rcases arity_eq_one_or_two op with harity | harity
                  · rw [operation_of_unary hkind harity, operation_of_unary hkind? harity,
                      skipConnectors_map_plain, hinner _ hskip]
                    refine plainly_map (fun operand => ?_) _
                    rfl
                  · rw [operation_of_binary hkind harity, operation_of_binary hkind? harity,
                      skipConnectors_map_plain, hinner _ hskip]
                    cases hfirst : operation (skipConnectors rest) with
                    | error fault => rfl
                    | ok first =>
                        -- The second operand is read from what the first one leaves.
                        have hshorter := length_rest_operation hfirst
                        have hsecond := hinner first.rest (by omega)
                        rw [plainly_ok]
                        simp only [Except.bind]
                        rw [show first.plain.rest = first.rest.map Token.plain from rfl, hsecond]
                        refine plainly_map (fun second => ?_) _
                        rfl

/-- A name is normalized as it is written, so the target of an assignment stays the
same. -/
theorem statement_map_plain {tokens : List Token} (h : ∀ token ∈ tokens, token.Verbatim) :
    statement (tokens.map Token.plain) = plainly plain (statement tokens) := by
  have hoperation := operation_map_plain tokens
  cases tokens with
  | nil => exact hoperation
  | cons target rest =>
      rw [List.map_cons] at hoperation ⊢
      by_cases htarget : target.kind = .identifier
      · cases rest with
        | nil => exact hoperation
        | cons sign value =>
            by_cases hsign : sign.kind = .assign
            · have hwritten := h target (List.mem_cons_self ..) htarget
              have htarget? : target.plain.kind = .identifier := htarget
              have hsign? : sign.plain.kind = .assign := hsign
              rw [List.map_cons, statement_of_assignment htarget hsign,
                statement_of_assignment htarget? hsign?, operation_map_plain]
              refine plainly_map (fun reading => ?_) _
              rw [show target.plain.written = target.written from hwritten]
              rfl
            · have hother : ∀ other ∈ (sign :: value).head?, other.kind ≠ .assign := by
                simpa using hsign
              have hother? : ∀ other ∈ ((sign :: value).map Token.plain).head?,
                  other.kind ≠ .assign := by
                simpa using hsign
              rw [statement_of_operation hother, statement_of_operation hother?, hoperation]
      · have htarget? : target.plain.kind ≠ .identifier := htarget
        rw [statement_of_kind_ne htarget, statement_of_kind_ne htarget?, hoperation]

theorem sentence_map_plain {tokens : List Token} (h : ∀ token ∈ tokens, token.Verbatim) :
    sentence (tokens.map Token.plain) = plainly (List.map Tree.plain) (sentence tokens) := by
  induction hlength : tokens.length using Nat.strongRecOn generalizing tokens with
  | _ length ih =>
      subst hlength
      cases tokens with
      | nil =>
          rw [List.map_nil, sentence_nil]
          rfl
      | cons token rest =>
          have hstatement := statement_map_plain h
          rw [sentence_eq (List.cons_ne_nil token rest), sentence_eq (by simp), hstatement]
          cases hread : statement (token :: rest) with
          | error fault => rfl
          | ok reading =>
              obtain ⟨first, left⟩ := reading
              have hshorter := length_rest_statement hread
              obtain ⟨front, hfront, -⟩ := exists_clause_of_statement hread
              cases left with
              | nil => rfl
              | cons separator behind =>
                  have hbehind := ih behind.length
                    (by simp only [List.length_cons] at hshorter ⊢; omega)
                    (fun other hother => h other (by rw [hfront]; simp [hother])) rfl
                  simp only [plainly_ok, plain, List.map_cons]
                  by_cases hcomma : separator.kind = .comma
                  · have hcomma? : separator.plain.kind = .comma := hcomma
                    rw [if_pos hcomma, if_pos hcomma?, hbehind]
                    cases sentence behind <;> rfl
                  · have hcomma? : separator.plain.kind ≠ .comma := hcomma
                    rw [if_neg hcomma, if_neg hcomma?]
                    rfl

end Reading

/-- Tokens and plain tokens have the same printed trees, or the same fault. -/
theorem printed_parse_map_plain {tokens : List Token} (h : ∀ token ∈ tokens, token.Verbatim) :
    printed (parse (tokens.map Token.plain)) = printed (parse tokens) := by
  rw [parse, parse, Reading.sentence_map_plain h, List.length_map]
  cases Reading.sentence tokens with
  | ok trees =>
      refine congrArg Except.ok ?_
      rw [List.map_map]
      exact List.map_congr_left fun tree _ => tree.render_plain
  | error fault =>
      refine congrArg Except.error ?_
      cases fault <;> simp [Fault.plain, Fault.locate, Fault.rest, ParseError.unquoted]

/-! ## Validating unquoted tokens -/

/-- A token without the text that it was written as, which stands nowhere. -/
def Token.unquoted (token : Token) : Token where
  kind := token.kind
  normalized := token.normalized
  written := ""
  span := ⟨0, 0⟩

/-- A token and its position, without the text that it was written as. -/
def Placed.unquoted (placed : Placed) : Placed :=
  (placed.1.unquoted, placed.2)

/-- A fault of meaning without the text of a token.  Names are kept. -/
def Diagnostic.unquoted : Diagnostic → Diagnostic
  | undefinedVariable name => undefinedVariable name
  | unexpectedOperand _ => unexpectedOperand ""
  | missingOperands _ => missingOperands ""
  | missingExpression name => missingExpression name
  | unexpectedToken _ => unexpectedToken ""

/-- A count without the text of the last operator. -/
def Tally.unquoted (tally : Tally) : Tally :=
  { tally with lastOperator := tally.lastOperator.map fun _ => "" }

/-- The end of a segment without the text of the token that breaks it. -/
def Ending.unquoted : Ending → Ending
  | complete => complete
  | surplus _ => surplus ""
  | stray _ => stray ""

/-- A segment without the texts of its tokens. -/
def Segment.unquoted (segment : Segment) : Segment where
  faults := segment.faults.map Diagnostic.unquoted
  tally := segment.tally.unquoted
  rest := segment.rest.map Placed.unquoted

/-- A verdict without the texts of tokens. -/
def Verdict.unquoted (verdict : Verdict) : Verdict where
  diagnostics := verdict.diagnostics.map Diagnostic.unquoted
  scope := verdict.scope

namespace Tally

theorem isFull_unquoted (tally : Tally) : tally.unquoted.isFull = tally.isFull := by
  simp [isFull, unquoted]

theorem missing_unquoted (tally : Tally) :
    tally.unquoted.missing = tally.missing.map Diagnostic.unquoted := by
  unfold missing unquoted
  cases tally.lastOperator with
  | none => rfl
  | some text => by_cases hneeded : tally.needed = 0 <;> simp [hneeded, Diagnostic.unquoted]

theorem after_unquoted (tally : Tally) (token : Token) :
    tally.unquoted.after token.unquoted = (tally.after token).unquoted := by
  unfold after
  rw [show token.unquoted.kind = token.kind from rfl]
  cases token.kind <;> rfl

theorem ending?_unquoted (tally : Tally) (token : Token) :
    tally.unquoted.ending? token.unquoted = (tally.ending? token).map Ending.unquoted := by
  unfold ending?
  rw [show token.unquoted.kind = token.kind from rfl, isFull_unquoted]
  cases token.kind with
  | number | identifier =>
      by_cases hfull : tally.isFull = true <;> simp [hfull, Ending.unquoted, Token.unquoted]
  | comma | assign | operator op | sequence | preposition => rfl

end Tally

theorem Ending.faults_unquoted (ending : Ending) :
    ending.unquoted.faults = ending.faults.map Diagnostic.unquoted := by
  cases ending <;> rfl

namespace Segment

theorem readNames_unquoted (scope : Scope) (names : List String) :
    (readNames scope names).map Diagnostic.unquoted = readNames scope names := by
  rw [readNames_eq_map, List.map_map]
  rfl

theorem faults_unquoted (segment : Segment) :
    segment.unquoted.faults = segment.faults.map Diagnostic.unquoted := rfl

theorem rest_unquoted (segment : Segment) :
    segment.unquoted.rest = segment.rest.map Placed.unquoted := rfl

/-- Without its texts a segment is counted and ends in the same way. -/
theorem scan_map_unquoted (scope : Scope) (tally : Tally) (tokens : List Placed) :
    scan scope tally.unquoted (tokens.map Placed.unquoted) =
      (scan scope tally tokens).unquoted := by
  induction tokens generalizing tally with
  | nil => rfl
  | cons placed rest ih =>
      rw [List.map_cons, scan_cons, scan_cons,
        show placed.unquoted.1 = placed.1.unquoted from rfl, Tally.ending?_unquoted,
        Tally.after_unquoted, ih, show placed.1.unquoted.name? = placed.1.name? from rfl]
      cases tally.ending? placed.1 with
      | none => simp [unquoted, report, readNames_unquoted]
      | some ending => simp [unquoted, report, readNames_unquoted, Ending.faults_unquoted]

theorem ofTokens_map_unquoted (scope : Scope) (tokens : List Placed) :
    ofTokens scope (tokens.map Placed.unquoted) = (ofTokens scope tokens).unquoted := by
  have hscan := scan_map_unquoted scope Tally.zero tokens
  rw [show Tally.zero.unquoted = Tally.zero from rfl] at hscan
  unfold ofTokens
  rw [hscan]
  cases hfaults : (scan scope Tally.zero tokens).faults with
  | nil => simp [unquoted, hfaults, Tally.missing_unquoted]
  | cons fault faults => simp [unquoted, hfaults]

end Segment

namespace Verdict

theorem assigned?_map_unquoted (tokens : List Placed) :
    assigned? (tokens.map Placed.unquoted) =
      (assigned? tokens).map (List.map Placed.unquoted) := by
  cases tokens with
  | nil => rfl
  | cons placed rest =>
      by_cases hassign : placed.1.kind = .assign <;>
        simp [assigned?, Placed.unquoted, Token.unquoted, hassign]

theorem report_unquoted (faults : List Diagnostic) (verdict : Verdict) :
    (report faults verdict).unquoted =
      report (faults.map Diagnostic.unquoted) verdict.unquoted := by
  simp [report, unquoted]

theorem assignmentFaults_unquoted (name : String) (segment : Segment) :
    assignmentFaults name segment.unquoted =
      (assignmentFaults name segment).map Diagnostic.unquoted := by
  unfold assignmentFaults
  rw [show segment.unquoted.tally.terms = segment.tally.terms from rfl, List.map_append]
  by_cases hterms : segment.tally.terms = 0 <;>
    simp [hterms, Segment.unquoted, Diagnostic.unquoted]

/-- Validation looks at the text of a token only to report it. -/
theorem ofPlaced_map_unquoted (scope : Scope) (tokens : List Placed) :
    ofPlaced scope (tokens.map Placed.unquoted) = (ofPlaced scope tokens).unquoted := by
  -- The induction is on the length, since validation goes on behind a segment.
  induction hlength : tokens.length using Nat.strongRecOn generalizing tokens scope with
  | _ length ih =>
      subst hlength
      cases tokens with
      | nil =>
          rw [List.map_nil, ofPlaced_nil]
          rfl
      | cons placed rest =>
          obtain ⟨token, position⟩ := placed
          have hrest := ih rest.length (Nat.lt_succ_self _) scope rest rfl
          rw [List.map_cons, show Placed.unquoted (token, position) = (token.unquoted, position)
            from rfl, ofPlaced_cons, ofPlaced_cons, assigned?_map_unquoted,
            show token.unquoted.kind = token.kind from rfl,
            show token.unquoted.normalized = token.normalized from rfl]
          cases hkind : token.kind with
          | identifier =>
              cases hassigned : assigned? rest with
              | none =>
                  have hname := Segment.readNames_unquoted scope [token.normalized]
                  rw [Segment.readNames_singleton] at hname
                  simp only [Option.map_none, report_unquoted, hrest, hname]
              | some value =>
                  have hvalue := length_assigned? hassigned
                  have hshorter := Segment.length_rest_ofTokens_le scope value
                  have hbehind := ih (Segment.ofTokens scope value).rest.length
                    (by simp only [List.length_cons]; omega)
                    (scope.define token.normalized position) _ rfl
                  simp only [Option.map_some, report_unquoted, Segment.ofTokens_map_unquoted,
                    assignmentFaults_unquoted, Segment.rest_unquoted, hbehind]
          | operator op =>
              have hsegment := Segment.ofTokens_map_unquoted scope ((token, position) :: rest)
              have hshorter := Segment.length_rest_ofTokens_lt scope hkind position rest
              have hbehind := ih _ hshorter scope _ rfl
              rw [List.map_cons] at hsegment
              dsimp only [Placed.unquoted] at hsegment
              simp only [hsegment, report_unquoted, Segment.faults_unquoted,
                Segment.rest_unquoted, hbehind]
          | number => exact hrest
          | sequence => exact hrest
          | preposition => exact hrest
          | comma => exact hrest
          | assign => exact hrest

end Verdict

theorem validate_map_unquoted (tokens : List Token) (scope : Scope) :
    validate (tokens.map Token.unquoted) scope = (validate tokens scope).unquoted := by
  rw [validate, validate, ← Verdict.ofPlaced_map_unquoted, List.zipIdx_map]
  rfl

/-! ## One sense -/

section OneSense

variable {tokens tokens' : List Token}

/-- Tokens of one sense have the same printed trees, or the same fault. -/
theorem printed_parse_of_sense (h : tokens.map Token.sense = tokens'.map Token.sense)
    (hverbatim : ∀ token ∈ tokens, token.Verbatim)
    (hverbatim' : ∀ token ∈ tokens', token.Verbatim) :
    printed (parse tokens) = printed (parse tokens') := by
  have hplain : ∀ tokens : List Token, tokens.map Token.plain =
      (tokens.map Token.sense).map fun sense => ⟨sense.1, sense.2, sense.2, ⟨0, 0⟩⟩ := by
    intro tokens
    rw [List.map_map]
    rfl
  rw [← printed_parse_map_plain hverbatim, ← printed_parse_map_plain hverbatim', hplain, h,
    ← hplain]

/-- Tokens of one sense have the same faults of meaning but for the texts in them,
and define the same names. -/
theorem validate_of_sense (h : tokens.map Token.sense = tokens'.map Token.sense) (scope : Scope) :
    (validate tokens scope).unquoted = (validate tokens' scope).unquoted := by
  have hunquoted : ∀ tokens : List Token, tokens.map Token.unquoted =
      (tokens.map Token.sense).map fun sense => ⟨sense.1, sense.2, "", ⟨0, 0⟩⟩ := by
    intro tokens
    rw [List.map_map]
    rfl
  rw [← validate_map_unquoted, ← validate_map_unquoted, hunquoted, h, ← hunquoted]

end OneSense

/-- Sentences of one sense have the same names in them. -/
theorem identifiers_of_sense {source source' : String}
    (h : (Transcript.ofSource source).tokens.map Token.sense =
      (Transcript.ofSource source').tokens.map Token.sense) :
    (Transcript.ofSource source).identifiers = (Transcript.ofSource source').identifiers := by
  have hnames : ∀ source : String, (Transcript.ofSource source).identifiers =
      (((Transcript.ofSource source).tokens.map Token.sense).filter
        (·.1 == .identifier)).map (·.2) := by
    intro source
    rw [List.filter_map, List.map_map]
    refine List.map_congr_left fun token htoken => ?_
    obtain ⟨hmem, hkind⟩ := List.mem_filter.mp htoken
    exact (Transcript.verbatim_ofSource source token hmem (beq_iff_eq.mp hkind)).symm
  rw [hnames, hnames, h]

/-- Sentences of one sense have the same structure, are valid in the same scopes and
leave the same scope behind them. -/
theorem analyze_of_sense {source source' : String}
    (h : (Transcript.ofSource source).tokens.map Token.sense =
      (Transcript.ofSource source').tokens.map Token.sense) (scope : Scope) :
    printed (analyze source scope).1.structured = printed (analyze source' scope).1.structured ∧
      (analyze source scope).1.isValid = (analyze source' scope).1.isValid ∧
        (analyze source scope).2 = (analyze source' scope).2 := by
  have hparse := printed_parse_of_sense h (Transcript.verbatim_ofSource source)
    (Transcript.verbatim_ofSource source')
  have hverdict := validate_of_sense h scope
  have hvalid := congrArg (fun verdict => verdict.diagnostics.isEmpty) hverdict
  simp only [Verdict.unquoted, List.isEmpty_map] at hvalid
  have hscope := congrArg Verdict.scope hverdict
  refine ⟨hparse, ?_, hscope⟩
  have hstructured := congrArg Except.isOk hparse
  simp only [isOk_printed] at hstructured
  exact congrArg₂ (· && ·) hstructured hvalid

end SpokenArithmetic
