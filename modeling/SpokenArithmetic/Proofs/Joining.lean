import SpokenArithmetic.Analysis
import SpokenArithmetic.Proofs.Placement
import SpokenArithmetic.Proofs.Stage

/-!
# Sentences joined by commas

Several sentences that share a scope are like one sentence with a comma between
two of them, whatever the sentences are (`Session.analyze_intercalate`).  For the tokens this
is how a text is cut at a comma.  For the validation it is that a comma ends a
statement (`Verdict.ofPlaced_append_comma`), and that validation looks at places
only to note where a name was defined (`Verdict.ofPlaced_map_moveTo`): which names
are defined decides about the faults, and the tokens alone decide about the
definitions.
-/

namespace SpokenArithmetic

/-- A token whose place and position are given by `place` and `index`. -/
def Placed.moveTo (place : Span → Span) (index : Nat → Nat) (placed : Placed) : Placed :=
  (placed.1.relocate place, index placed.2)

theorem Placed.moveTo_id : Placed.moveTo id id = id := rfl

/-- A token at another place behind `count` more tokens. -/
def Placed.move (place : Span → Span) (count : Nat) (placed : Placed) : Placed :=
  (placed.1.relocate place, count + placed.2)

/-- Tokens that are counted from elsewhere are moved one by one. -/
theorem zipIdx_map_relocate (place : Span → Span) {index : Nat → Nat} {start start' : Nat}
    {tokens : List Token}
    (h : ∀ offset < tokens.length, index (start + offset) = start' + offset) :
    (tokens.map (Token.relocate place)).zipIdx start' =
      (tokens.zipIdx start).map (Placed.moveTo place index) := by
  induction tokens generalizing start start' with
  | nil => rfl
  | cons token rest ih =>
      have hfirst : index start = start' := h 0 (Nat.zero_lt_succ _)
      have hrest : (rest.map (Token.relocate place)).zipIdx (start' + 1) =
          (rest.zipIdx (start + 1)).map (Placed.moveTo place index) := by
        apply ih
        intro offset hoffset
        have hnext := h (offset + 1) (Nat.succ_lt_succ hoffset)
        rw [Nat.add_assoc, Nat.add_comm 1, hnext]
        omega
      rw [List.map_cons, List.zipIdx_cons, List.zipIdx_cons, List.map_cons, hrest, ← hfirst]
      rfl

/-- Whether two scopes define the same names. -/
def Scope.SameNames (scope scope' : Scope) : Prop :=
  ∀ name, scope.isDefined name = scope'.isDefined name

theorem Scope.SameNames.define {scope scope' : Scope} (h : SameNames scope scope') (name : String)
    (position position' : Nat) :
    SameNames (scope.define name position) (scope'.define name position') := by
  intro other
  rw [isDefined_define, isDefined_define, h other]

/-! ## Validation at another place -/

namespace Segment

theorem readName_congr {scope scope' : Scope} (h : scope.SameNames scope') (name : String) :
    readName scope name = readName scope' name := by
  rw [readName, readName, h name]

variable (place : Span → Span) (index : Nat → Nat)

/-- The scope of a segment decides about its faults alone, and its place decides
about nothing. -/
theorem scan_map_moveTo (scope scope' : Scope) (tally : Tally) (tokens : List Placed) :
    (scan scope tally (tokens.map (Placed.moveTo place index))).tally =
        (scan scope' tally tokens).tally ∧
      (scan scope tally (tokens.map (Placed.moveTo place index))).rest =
        (scan scope' tally tokens).rest.map (Placed.moveTo place index) ∧
      (scope.SameNames scope' →
        (scan scope tally (tokens.map (Placed.moveTo place index))).faults =
          (scan scope' tally tokens).faults) := by
  induction tokens generalizing tally with
  | nil => exact ⟨rfl, rfl, fun _ => rfl⟩
  | cons placed rest ih =>
      obtain ⟨token, position⟩ := placed
      simp only [List.map_cons, Placed.moveTo, scan, Token.kind_relocate, Token.written_relocate,
        Token.normalized_relocate]
      cases token.kind with
      | operator op => exact ih _
      | number =>
          by_cases hfull : tally.isFull = true
          · simp [hfull]
          · simp only [hfull]
            exact ih _
      | identifier =>
          by_cases hfull : tally.isFull = true
          · simp only [hfull, if_true]
            exact ⟨rfl, rfl, fun hnames => by simp only [report, readName_congr hnames]⟩
          · simp only [hfull]
            obtain ⟨htally, hrest, hfaults⟩ := ih tally.operand
            exact ⟨htally, hrest, fun hnames =>
              congrArg₂ (· ++ ·) (readName_congr hnames token.normalized) (hfaults hnames)⟩
      | comma => exact ⟨rfl, rfl, fun _ => rfl⟩
      | assign => exact ⟨rfl, rfl, fun _ => rfl⟩
      | sequence => exact ih _
      | preposition => exact ih _

theorem ofTokens_map_moveTo (scope scope' : Scope) (tokens : List Placed) :
    (ofTokens scope (tokens.map (Placed.moveTo place index))).tally =
        (ofTokens scope' tokens).tally ∧
      (ofTokens scope (tokens.map (Placed.moveTo place index))).rest =
        (ofTokens scope' tokens).rest.map (Placed.moveTo place index) ∧
      (scope.SameNames scope' →
        (ofTokens scope (tokens.map (Placed.moveTo place index))).faults =
          (ofTokens scope' tokens).faults) := by
  obtain ⟨htally, hrest, hfaults⟩ := scan_map_moveTo place index scope scope' Tally.zero tokens
  rw [tally_ofTokens, tally_ofTokens, rest_ofTokens, rest_ofTokens]
  refine ⟨htally, hrest, fun hnames => ?_⟩
  unfold ofTokens
  dsimp only
  rw [hfaults hnames, htally]
  split
  · rfl
  · exact hfaults hnames

end Segment

namespace Verdict

variable (place : Span → Span) (index : Nat → Nat)

theorem assigned?_map_moveTo (tokens : List Placed) :
    assigned? (tokens.map (Placed.moveTo place index)) =
      (assigned? tokens).map (List.map (Placed.moveTo place index)) := by
  cases tokens with
  | nil => rfl
  | cons placed rest =>
      by_cases hassign : placed.1.kind = .assign <;> simp [assigned?, Placed.moveTo, hassign]

/-- Validation of the same tokens at another place and in another scope.  What
each definition preserves is true of the two scopes in the end, and with the
same names defined the same faults are found. -/
theorem ofPlaced_map_moveTo (Related : Scope → Scope → Prop)
    (hdefine : ∀ scope scope' name position, Related scope scope' →
      Related (scope.define name (index position)) (scope'.define name position))
    {scope scope' : Scope} (h : Related scope scope') (tokens : List Placed) :
    Related (ofPlaced scope (tokens.map (Placed.moveTo place index))).scope
        (ofPlaced scope' tokens).scope ∧
      ((∀ scope scope', Related scope scope' → scope.SameNames scope') →
        (ofPlaced scope (tokens.map (Placed.moveTo place index))).diagnostics =
          (ofPlaced scope' tokens).diagnostics) := by
  -- The induction is on the length, since validation goes on behind a segment.
  induction hlength : tokens.length using Nat.strongRecOn generalizing tokens scope scope' with
  | _ length ih =>
      subst hlength
      cases tokens with
      | nil =>
          rw [List.map_nil, ofPlaced_nil, ofPlaced_nil]
          exact ⟨h, fun _ => rfl⟩
      | cons placed rest =>
          obtain ⟨token, position⟩ := placed
          have hrest := ih rest.length (Nat.lt_succ_self _) h rest rfl
          simp only [List.map_cons]
          rw [show Placed.moveTo place index (token, position) =
            (token.relocate place, index position) from rfl, ofPlaced_cons, ofPlaced_cons,
            assigned?_map_moveTo, Token.kind_relocate, Token.normalized_relocate]
          cases hkind : token.kind with
          | identifier =>
              cases hassigned : assigned? rest with
              | none =>
                  refine ⟨hrest.1, fun hnames => ?_⟩
                  simp [Segment.readName_congr (hnames _ _ h), hrest.2 hnames]
              | some value =>
                  obtain ⟨htally, hbehind, hfaults⟩ :=
                    Segment.ofTokens_map_moveTo place index scope scope' value
                  have hvalue := length_assigned? hassigned
                  have hshorter := Segment.length_rest_ofTokens_le scope' value
                  obtain ⟨hrelated, hdiagnostics⟩ := ih (Segment.ofTokens scope' value).rest.length
                    (by simp only [List.length_cons]; omega)
                    (hdefine _ _ token.normalized position h) _ rfl
                  simp only [Option.map_some, hbehind, scope_report, diagnostics_report,
                    assignmentFaults, htally]
                  refine ⟨hrelated, fun hnames => ?_⟩
                  rw [hfaults (hnames _ _ h), hdiagnostics hnames]
          | operator op =>
              obtain ⟨-, hbehind, hfaults⟩ :=
                Segment.ofTokens_map_moveTo place index scope scope' ((token, position) :: rest)
              have hshorter := Segment.length_rest_ofTokens_lt scope' hkind position rest
              obtain ⟨hrelated, hdiagnostics⟩ := ih _ hshorter h _ rfl
              rw [List.map_cons] at hbehind hfaults
              dsimp only [Placed.moveTo] at hbehind hfaults
              simp only [hbehind, scope_report, diagnostics_report]
              refine ⟨hrelated, fun hnames => ?_⟩
              rw [hfaults (hnames _ _ h), hdiagnostics hnames]
          | number => exact hrest
          | sequence => exact hrest
          | preposition => exact hrest
          | comma => exact hrest
          | assign => exact hrest

/-- The tokens alone decide what is defined behind them, and where. -/
theorem definition?_ofPlaced_map_moveTo (scope : Scope) (tokens : List Placed) (name : String) :
    (ofPlaced scope (tokens.map (Placed.moveTo place index))).scope.definition? name =
      (((ofPlaced Scope.empty tokens).scope.definition? name).map index).or
        (scope.definition? name) := by
  refine (ofPlaced_map_moveTo place index (fun behind behind' => ∀ name,
    behind.definition? name =
      ((behind'.definition? name).map index).or (scope.definition? name))
    (fun behind behind' name position h other => ?_) (fun name => by simp) tokens).1 name
  rw [Scope.definition?_define, Scope.definition?_define]
  split
  · rfl
  · exact h other

theorem sameNames_ofPlaced_map_moveTo {scope scope' : Scope} (h : scope.SameNames scope')
    (tokens : List Placed) :
    (ofPlaced scope (tokens.map (Placed.moveTo place index))).scope.SameNames
        (ofPlaced scope' tokens).scope ∧
      (ofPlaced scope (tokens.map (Placed.moveTo place index))).diagnostics =
        (ofPlaced scope' tokens).diagnostics := by
  obtain ⟨hnames, hdiagnostics⟩ := ofPlaced_map_moveTo place index Scope.SameNames
    (fun _ _ name position h => h.define name (index position) position) h tokens
  exact ⟨hnames, hdiagnostics fun _ _ h => h⟩

end Verdict

/-- What a sentence leaves defined is what it defines by itself, and otherwise
what is defined in front of it. -/
theorem definition?_validate (tokens : List Token) (scope : Scope) (name : String) :
    (validate tokens scope).scope.definition? name =
      ((validate tokens Scope.empty).scope.definition? name).or (scope.definition? name) := by
  have hmove := Verdict.definition?_ofPlaced_map_moveTo id id scope tokens.zipIdx name
  rwa [Placed.moveTo_id, List.map_id, Option.map_id] at hmove

/-! ## Sessions -/

namespace Session

/-- The tokens of some sentences in the sentence that they make up with a comma
between two of them, where the first begins at the position `start`. -/
def joinTokens (start : Nat) : List Transcript → List Token
  | [] => []
  | [last] => last.tokens.map (Token.relocate (Span.shift start))
  | first :: second :: rest =>
      let stop := start + first.source.utf8ByteSize
      first.tokens.map (Token.relocate (Span.shift start)) ++
        Token.comma stop :: joinTokens (stop + 1) (second :: rest)

/-- What is unrecognized in some sentences, at its place in the sentence that
they make up. -/
def joinUnrecognized (start : Nat) : List Transcript → List Unrecognized
  | [] => []
  | first :: rest =>
      first.unrecognized.map (Unrecognized.shift start) ++
        joinUnrecognized (start + first.source.utf8ByteSize + 1) rest

/-- Whether a sentence defines a name.  What is defined in front of it makes no
difference to this (`definition?_analyze`). -/
def Defines (source name : String) : Prop :=
  (analyze source Scope.empty).2.isDefined name = true

/-- The number of the tokens of some sentences, with a comma behind each. -/
def tokensBefore : List String → Nat
  | [] => 0
  | source :: rest => (Transcript.ofSource source).tokens.length + 1 + tokensBefore rest

/-- What one run over sentences with a comma between them has to do with the
runs over each of them in one shared scope. -/
structure Agrees (sources : List String) (joined : Analysis × Scope)
    (shared : List Analysis × Scope) (scope : Scope) : Prop where
  tokens : joined.1.transcript.tokens = joinTokens 0 (shared.1.map (·.transcript))
  unrecognized :
    joined.1.transcript.unrecognized = joinUnrecognized 0 (shared.1.map (·.transcript))
  diagnostics : joined.1.diagnostics = shared.1.flatMap (·.diagnostics)
  names : joined.2.SameNames shared.2
  /-- The last sentence that defines a name gives it its position. -/
  defined (front back : List String) (source name : String) :
    sources = front ++ source :: back → Defines source name →
      (∀ other ∈ back, ¬ Defines other name) →
        ∃ position, (analyze source Scope.empty).2.definition? name = some position ∧
          shared.2.definition? name = some position ∧
          joined.2.definition? name = some (tokensBefore front + position)
  /-- A name that none of the sentences defines stays as it is. -/
  kept (name : String) : (∀ source ∈ sources, ¬ Defines source name) →
    shared.2.definition? name = scope.definition? name ∧
      joined.2.definition? name = scope.definition? name

theorem map_transcript_analyzeAll (sources : List String) (scope : Scope) :
    (analyzeAll sources scope).1.map (·.transcript) = sources.map Transcript.ofSource := by
  induction sources generalizing scope with
  | nil => rfl
  | cons source rest ih => exact congrArg (Transcript.ofSource source :: ·) (ih _)

theorem tokens_ofSource_intercalate (start : Nat) (sources : List String) :
    (Transcript.ofSource (",".intercalate sources)).tokens.map (Token.relocate (Span.shift start)) =
      joinTokens start (sources.map Transcript.ofSource) := by
  induction sources generalizing start with
  | nil => simp [Transcript.ofSource, Lexeme.mergeCompounds, Token.ofLexemes, Token.promoteKeywords,
      Token.promoteFrom, joinTokens]
  | cons source rest ih =>
      cases rest with
      | nil =>
          rw [String.intercalate_singleton]
          rfl
      | cons second rest =>
          rw [String.intercalate_cons_cons, Transcript.tokens_ofSource_append_comma,
            List.map_append, List.map_cons, Token.relocate_comma, List.map_map,
            Token.relocate_comp_shift, ih]
          simp [joinTokens, Nat.add_assoc]

theorem unrecognized_ofSource_intercalate (start : Nat) (sources : List String) :
    (Transcript.ofSource (",".intercalate sources)).unrecognized.map (Unrecognized.shift start) =
      joinUnrecognized start (sources.map Transcript.ofSource) := by
  induction sources generalizing start with
  | nil => simp [Transcript.ofSource, Unrecognized.ofScan, Unrecognized.ofGap, joinUnrecognized]
  | cons source rest ih =>
      cases rest with
      | nil =>
          rw [String.intercalate_singleton]
          simp [joinUnrecognized]
      | cons second rest =>
          rw [String.intercalate_cons_cons, Transcript.unrecognized_ofSource_append_comma,
            List.map_append, List.map_map, Unrecognized.shift_comp_shift, ih]
          simp [joinUnrecognized, Nat.add_assoc]

/-- The verdict on a sentence that begins at the position `start` behind `count`
tokens. -/
def verdictAt (scope : Scope) (start count : Nat) (source : String) : Verdict :=
  Verdict.ofPlaced scope
    ((Transcript.ofSource source).tokens.zipIdx.map (Placed.move (Span.shift start) count))

/-- The verdict on sentences that are joined behind `count` tokens. -/
def joinedVerdict (scope : Scope) (start count : Nat) (sources : List String) : Verdict :=
  Verdict.ofPlaced scope ((joinTokens start (sources.map Transcript.ofSource)).zipIdx count)

theorem joinedVerdict_nil (scope : Scope) (start count : Nat) :
    joinedVerdict scope start count [] = ⟨[], scope⟩ :=
  Verdict.ofPlaced_nil scope

/-- The first sentence is validated by itself, and the others behind it. -/
theorem joinedVerdict_cons (scope : Scope) (start count : Nat) (source : String)
    (rest : List String) :
    joinedVerdict scope start count (source :: rest) =
      Verdict.report (verdictAt scope start count source).diagnostics
        (joinedVerdict (verdictAt scope start count source).scope (start + source.utf8ByteSize + 1)
          (count + ((Transcript.ofSource source).tokens.length + 1)) rest) := by
  have hfirst :
      ((Transcript.ofSource source).tokens.map (Token.relocate (Span.shift start))).zipIdx count =
        (Transcript.ofSource source).tokens.zipIdx.map (Placed.move (Span.shift start) count) :=
    zipIdx_map_relocate (Span.shift start) fun offset _ => by rw [Nat.zero_add]
  cases rest with
  | nil =>
      simp only [joinedVerdict, verdictAt, List.map_cons, List.map_nil, joinTokens, hfirst,
        List.zipIdx_nil, Verdict.ofPlaced_nil]
      simp [Verdict.report]
  | cons second rest =>
      simp only [joinedVerdict, List.map_cons]
      rw [joinTokens, List.zipIdx_append, List.zipIdx_cons, hfirst, List.length_map,
        Verdict.ofPlaced_append_comma rfl]
      rfl

/-- With the same names defined in front of them, joined sentences have the
faults that they have one by one, and define the same names. -/
theorem joinedVerdict_analyzeAll {scope scope' : Scope} (h : scope.SameNames scope')
    (start count : Nat) (sources : List String) :
    (joinedVerdict scope start count sources).scope.SameNames (analyzeAll sources scope').2 ∧
      (joinedVerdict scope start count sources).diagnostics =
        (analyzeAll sources scope').1.flatMap (·.diagnostics) := by
  induction sources generalizing scope scope' start count with
  | nil =>
      rw [joinedVerdict_nil]
      exact ⟨h, rfl⟩
  | cons source rest ih =>
      obtain ⟨hnames, hdiagnostics⟩ := Verdict.sameNames_ofPlaced_map_moveTo (Span.shift start)
        (count + ·) h (Transcript.ofSource source).tokens.zipIdx
      obtain ⟨hnamesRest, hdiagnosticsRest⟩ := ih hnames (start + source.utf8ByteSize + 1)
        (count + ((Transcript.ofSource source).tokens.length + 1))
      rw [joinedVerdict_cons]
      exact ⟨hnamesRest, congrArg₂ (· ++ ·) hdiagnostics hdiagnosticsRest⟩

theorem definition?_analyze (source : String) (scope : Scope) (name : String) :
    (analyze source scope).2.definition? name =
      ((analyze source Scope.empty).2.definition? name).or (scope.definition? name) :=
  definition?_validate (Transcript.ofSource source).tokens scope name

theorem definition?_verdictAt (scope : Scope) (start count : Nat) (source name : String) :
    (verdictAt scope start count source).scope.definition? name =
      (((analyze source Scope.empty).2.definition? name).map (count + ·)).or
        (scope.definition? name) :=
  Verdict.definition?_ofPlaced_map_moveTo (Span.shift start) (count + ·) scope
    (Transcript.ofSource source).tokens.zipIdx name

theorem definition?_eq_none_of_not_defines {source name : String} (h : ¬ Defines source name) :
    (analyze source Scope.empty).2.definition? name = none := by
  simpa [Defines, Scope.isDefined_eq_isSome] using h

/-- Sentences leave the names that they do not define as they are. -/
theorem definition?_of_forall_not_defines {sources : List String} {name : String}
    (h : ∀ source ∈ sources, ¬ Defines source name) (scope scope' : Scope) (start count : Nat) :
    (analyzeAll sources scope).2.definition? name = scope.definition? name ∧
      (joinedVerdict scope' start count sources).scope.definition? name =
        scope'.definition? name := by
  induction sources generalizing scope scope' start count with
  | nil =>
      rw [joinedVerdict_nil]
      exact ⟨rfl, rfl⟩
  | cons source rest ih =>
      have hnone := definition?_eq_none_of_not_defines (h source (List.mem_cons_self ..))
      obtain ⟨hshared, hjoined⟩ := ih (fun other hother => h other (List.mem_cons_of_mem _ hother))
        (analyze source scope).2 (verdictAt scope' start count source).scope
        (start + source.utf8ByteSize + 1)
        (count + ((Transcript.ofSource source).tokens.length + 1))
      constructor
      · refine hshared.trans ?_
        rw [definition?_analyze, hnone, Option.none_or]
      · rw [joinedVerdict_cons]
        refine hjoined.trans ?_
        rw [definition?_verdictAt, hnone, Option.map_none, Option.none_or]

/-- The last sentence that defines a name gives it its position, which in the
joined sentence is behind the tokens of the sentences before. -/
theorem definition?_of_defines (front : List String) {back : List String}
    {source name : String} {position : Nat}
    (hposition : (analyze source Scope.empty).2.definition? name = some position)
    (hback : ∀ other ∈ back, ¬ Defines other name) (scope scope' : Scope) (start count : Nat) :
    (analyzeAll (front ++ source :: back) scope).2.definition? name = some position ∧
      (joinedVerdict scope' start count (front ++ source :: back)).scope.definition? name =
        some (count + (tokensBefore front + position)) := by
  induction front generalizing scope scope' start count with
  | nil =>
      obtain ⟨hshared, hjoined⟩ := definition?_of_forall_not_defines hback
        (analyze source scope).2 (verdictAt scope' start count source).scope
        (start + source.utf8ByteSize + 1)
        (count + ((Transcript.ofSource source).tokens.length + 1))
      constructor
      · refine hshared.trans ?_
        rw [definition?_analyze, hposition, Option.some_or]
      · rw [List.nil_append, joinedVerdict_cons]
        refine hjoined.trans ?_
        rw [definition?_verdictAt, hposition, Option.map_some, Option.some_or]
        simp [tokensBefore]
  | cons first front ih =>
      obtain ⟨hshared, hjoined⟩ := ih (analyze first scope).2
        (verdictAt scope' start count first).scope (start + first.utf8ByteSize + 1)
        (count + ((Transcript.ofSource first).tokens.length + 1))
      refine ⟨hshared, ?_⟩
      rw [List.cons_append, joinedVerdict_cons]
      refine hjoined.trans ?_
      simp only [tokensBefore, Nat.add_assoc]

/-- A session of sentences is one sentence with a comma between two of them. -/
theorem analyze_intercalate (sources : List String) (scope : Scope) :
    Agrees sources (analyze (",".intercalate sources) scope) (analyzeAll sources scope) scope := by
  have htokens := tokens_ofSource_intercalate 0 sources
  rw [Token.relocate_shift_zero, List.map_id] at htokens
  have hunrecognized := unrecognized_ofSource_intercalate 0 sources
  rw [Unrecognized.shift_zero, List.map_id] at hunrecognized
  have hverdict : validate (Transcript.ofSource (",".intercalate sources)).tokens scope =
      joinedVerdict scope 0 0 sources := by
    rw [validate, htokens, joinedVerdict]
  have hsame : scope.SameNames scope := fun _ => rfl
  obtain ⟨hnames, hdiagnostics⟩ := joinedVerdict_analyzeAll hsame 0 0 sources
  rw [← hverdict] at hnames hdiagnostics
  refine ⟨?_, ?_, hdiagnostics, hnames, ?_, ?_⟩
  · rw [map_transcript_analyzeAll]
    exact htokens
  · rw [map_transcript_analyzeAll]
    exact hunrecognized
  · rintro front back source name rfl hdefines hback
    obtain ⟨position, hposition⟩ : ∃ position,
        (analyze source Scope.empty).2.definition? name = some position := by
      rw [← Option.isSome_iff_exists, ← Scope.isDefined_eq_isSome]
      exact hdefines
    obtain ⟨hshared, hjoined⟩ := definition?_of_defines front hposition hback scope scope 0 0
    rw [← hverdict, Nat.zero_add] at hjoined
    exact ⟨position, hposition, hshared, hjoined⟩
  · intro name hnone
    have hkept := definition?_of_forall_not_defines hnone scope scope 0 0
    rw [← hverdict] at hkept
    exact hkept

end Session
end SpokenArithmetic
