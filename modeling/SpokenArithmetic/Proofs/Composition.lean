import SpokenArithmetic.Proofs.FirstFault

/-!
# Reading on behind a comma

Tokens with a comma between them are read as what stands in front of the comma
and, behind a complete statement, as what stands behind it.  Nothing that is
read on one side depends on the other side (`parse_append_comma`).  There are
four cases for the tokens in front, and each has a lemma:

* they end with a statement, which the comma then finishes;
* they are empty or end with a comma, so that a statement has to open where
  the new comma stands;
* they end where a term has to stand, and the new comma is none;
* they have a fault at one of their tokens.
-/

namespace SpokenArithmetic

/-- The fault as it is reported behind `count` more tokens. -/
def ParseError.shift (count : Nat) : ParseError → ParseError
  | expectedTerm position found => expectedTerm (count + position) found
  | unexpectedEndOfInput => unexpectedEndOfInput
  | expectedSeparator position found => expectedSeparator (count + position) found

/-- Whether there are tokens and the last of them is no comma. -/
def endsInStatement (tokens : List Token) : Bool :=
  tokens.getLast?.any (·.kind != .comma)

namespace Reading

/-! ## A comma behind statements -/

theorem endsInStatement_append_comma (front : List Token) {separator : Token}
    (h : separator.kind = .comma) (rest : List Token) :
    endsInStatement (front ++ separator :: rest) = endsInStatement rest := by
  unfold endsInStatement
  rw [List.getLast?_append, List.getLast?_cons]
  cases rest.getLast? with
  | none => simp [h]
  | some last => rfl

theorem Clause.endsInStatement_eq {tokens : List Token} {tree : Tree}
    (h : Clause Phrase tokens tree) : endsInStatement tokens = true := by
  have hlast := List.getLast?_eq_some_getLast h.ne_nil
  have hkind := h.kind_ne_comma _ (List.getLast_mem h.ne_nil)
  simp [endsInStatement, hlast, hkind]

/-- Statements that do not end inside one have a comma behind each of them. -/
theorem Joined.finished {tokens : List Token} {trees : List Tree} (h : Joined Phrase tokens trees)
    (hends : endsInStatement tokens = false) : Finished tokens trees := by
  induction h with
  | nil => exact .nil
  | last hclause =>
      rw [hclause.endsInStatement_eq] at hends
      cases hends
  | @cons separator tokens rest tree trees hclause hseparator _ ih =>
      rw [endsInStatement_append_comma tokens hseparator] at hends
      exact .cons hclause hseparator (ih hends)

/-- A comma finishes the statement that some tokens end with. -/
theorem Joined.finished_append {tokens : List Token} {trees : List Tree}
    (h : Joined Phrase tokens trees) (hends : endsInStatement tokens = true) {separator : Token}
    (hseparator : separator.kind = .comma) : Finished (tokens ++ [separator]) trees := by
  induction h with
  | nil => cases hends
  | last hclause => exact .cons hclause hseparator .nil
  | @cons first tokens rest tree trees hclause hfirst _ ih =>
      rw [endsInStatement_append_comma tokens hfirst] at hends
      rw [List.append_assoc, List.cons_append]
      exact .cons hclause hfirst (ih hends)

/-! ## What a comma does to a sentence -/

section AppendComma

variable {separator : Token} {front : List Token} {trees : List Tree}

/-- Behind a comma that finishes a statement another sentence is read. -/
theorem sentence_append_comma_of_ends (hseparator : separator.kind = .comma)
    (h : sentence front = .ok trees) (hends : endsInStatement front = true) (rest : List Token) :
    sentence (front ++ separator :: rest) = (sentence rest).map (trees ++ ·) := by
  have hfinished := (joined_of_sentence h).finished_append hends hseparator
  rw [List.append_cons]
  exact hfinished.sentence_append rest

/-- No statement opens with a comma. -/
theorem sentence_cons_comma (hseparator : separator.kind = .comma) (rest : List Token) :
    sentence (separator :: rest) = .error (.expectedTerm separator rest) := by
  have hstatement : statement (separator :: rest) = .error (.expectedTerm separator rest) := by
    rw [statement_of_kind_ne (by simp [hseparator])]
    exact operation_of_neither (by simp [Token.leaf?, hseparator])
      (by simp [Token.operator?, hseparator, Kind.operator?]) rest
  rw [sentence_eq (List.cons_ne_nil _ _), hstatement]

theorem sentence_append_comma_of_not_ends (hseparator : separator.kind = .comma)
    (h : sentence front = .ok trees) (hends : endsInStatement front = false) (rest : List Token) :
    sentence (front ++ separator :: rest) = .error (.expectedTerm separator rest) := by
  have hfinished := (joined_of_sentence h).finished hends
  rw [hfinished.sentence_append, sentence_cons_comma hseparator]
  rfl

/-- Where a sentence ends too early, a comma behind it is at fault. -/
theorem sentence_append_comma_of_unexpectedEnd (hseparator : separator.kind = .comma)
    (h : sentence front = .error .unexpectedEndOfInput) (rest : List Token) :
    sentence (front ++ separator :: rest) = .error (.expectedTerm separator rest) := by
  obtain ⟨before, trees, current, rfl, hfinished, hcases⟩ := exists_finished_of_sentence h
  rcases hcases with ⟨-, hstatement⟩ | ⟨tree, found, behind, -, -, hfault⟩
  · obtain ⟨lead, following, rfl, hlead, hoperation⟩ := exists_lead_of_statement hstatement
    obtain ⟨opened, left, rfl, hstops, hfault⟩ := exists_stops_of_operation hoperation
    cases left with
    | cons found behind => cases hfault
    | nil =>
        -- The operation stops at the comma as it has stopped at the end.
        have hsettled : Settled (separator :: rest) := AtBreak.settled hseparator
        have hcomma : Stops opened (separator :: rest) :=
          ⟨hstops.opened, ⟨by simp [Token.leaf?, hseparator], hsettled.2⟩, fun _ => hsettled⟩
        have hread : statement (lead ++ (opened ++ separator :: rest)) =
            .error (.expectedTerm separator rest) := hlead.statement_append hcomma
        rw [List.append_nil, List.append_assoc, List.append_assoc, hfinished.sentence_append,
          sentence_eq (by simp), hread]
        rfl
  · cases hfault

end AppendComma

/-- A token at fault is so whatever stands behind a sentence. -/
theorem parse_append_of_position {tokens : List Token} {error : ParseError}
    (h : parse tokens = .error error) (hposition : error.position?.isSome = true)
    (rest : List Token) : parse (tokens ++ rest) = .error error := by
  obtain ⟨fault, hfault⟩ := exists_fault_of_parse h
  obtain rfl := Except.error.inj ((parse_eq_error hfault).symm.trans h)
  rcases exists_of_sentence_eq_error hfault with
    ⟨rfl, -⟩ | ⟨front, found, behind, report, rfl, hreport, rfl, hagain, -⟩
  · cases hposition
  · rw [List.append_assoc, List.cons_append, parse_eq_error (hagain (behind ++ rest)),
      locate_append_cons hreport, locate_append_cons hreport]

/-! ## Positions behind a comma -/

/-- A fault stays at its token when other tokens are put in front. -/
theorem locate_add {tokens : List Token} {fault : Fault} (h : sentence tokens = .error fault)
    (count : Nat) :
    fault.locate (count + tokens.length) = (fault.locate tokens.length).shift count := by
  rcases exists_of_sentence_eq_error h with
    ⟨rfl, -⟩ | ⟨front, found, rest, report, rfl, hreport, rfl, -⟩
  · rfl
  · have hposition : count + (front ++ found :: rest).length - (rest.length + 1) =
        count + ((front ++ found :: rest).length - (rest.length + 1)) := by
      simp only [List.length_append, List.length_cons]
      omega
    rcases hreport with rfl | rfl <;>
      simp only [Fault.locate, Fault.rest, ParseError.shift, hposition]

/-- What is read behind a finished statement is read with the positions moved on. -/
theorem parse_of_sentence_map {tokens rest : List Token} {trees : List Tree} {count : Nat}
    (hlength : tokens.length = count + rest.length)
    (h : sentence tokens = (sentence rest).map (trees ++ ·)) :
    parse tokens = ((parse rest).map (trees ++ ·)).mapError (·.shift count) := by
  cases hrest : sentence rest with
  | ok others =>
      rw [hrest] at h
      rw [parse_eq_ok h, parse_eq_ok hrest]
      rfl
  | error fault =>
      rw [hrest] at h
      rw [parse_eq_error h, parse_eq_error hrest, hlength, locate_add hrest]
      rfl

/-- Tokens with a comma between them are read as what stands in front of it.  If
that is complete and ends with a statement, what stands behind the comma is read
as a sentence of its own, and its fault is found behind the tokens in front.  If
it is complete and ends with a comma or is empty, or if it ends too early, the
comma itself is at fault. -/
theorem parse_append_comma {separator : Token} (hseparator : separator.kind = .comma)
    (front rest : List Token) :
    parse (front ++ separator :: rest) =
      match parse front with
      | .ok trees =>
          if endsInStatement front then
            ((parse rest).map (trees ++ ·)).mapError (·.shift (front.length + 1))
          else
            .error (.expectedTerm front.length separator.written)
      | .error .unexpectedEndOfInput => .error (.expectedTerm front.length separator.written)
      | .error error => .error error := by
  have hcomma : sentence (front ++ separator :: rest) = .error (.expectedTerm separator rest) →
      parse (front ++ separator :: rest) =
        .error (.expectedTerm front.length separator.written) := by
    intro h
    rw [parse_eq_error h, locate_append_cons (Or.inl rfl)]
    rfl
  cases hfront : sentence front with
  | ok trees =>
      rw [parse_eq_ok hfront]
      cases hends : endsInStatement front with
      | true =>
          refine parse_of_sentence_map ?_ (sentence_append_comma_of_ends hseparator hfront hends rest)
          simp only [List.length_append, List.length_cons]
          omega
      | false => exact hcomma (sentence_append_comma_of_not_ends hseparator hfront hends rest)
  | error fault =>
      have hparse := parse_eq_error hfront
      cases fault with
      | unexpectedEndOfInput =>
          rw [hparse]
          exact hcomma (sentence_append_comma_of_unexpectedEnd hseparator hfront rest)
      | expectedTerm found behind =>
          rw [parse_append_of_position hparse rfl, hparse]
          rfl
      | expectedSeparator found behind =>
          rw [parse_append_of_position hparse rfl, hparse]
          rfl

/-- The sentence behind the comma has one operand too many, and the fault is found
at the place of that operand among all the tokens. -/
theorem parse_append_comma_of_surplus_operand :
    (⟨.comma, ",", ",", ⟨15, 16⟩⟩ : Token).kind = .comma ∧
      parse ((Transcript.ofSource "x = raíz de 9, 5").tokens ++
        ⟨.comma, ",", ",", ⟨15, 16⟩⟩ :: (Transcript.ofSource "suma x y 1 2").tokens) =
        .error (.expectedSeparator 12 "2") := by
  refine ⟨rfl, ?_⟩
  rw [parse_append_comma rfl]
  decide +kernel

end Reading
end SpokenArithmetic
