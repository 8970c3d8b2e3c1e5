import SpokenArithmetic.Validation

/-!
# Validation statement by statement

Validation knows no statements.  It goes over the tokens once, and its
segments end where they end, be it in the middle of a statement.  Still a
comma always does the same as the end of a sentence (`ofPlaced_append_comma`),
whatever the tokens are.  So what validation finds is what it finds in each
statement by itself, in the scope that the statements before have left.
-/

namespace SpokenArithmetic
namespace Segment

/-- A segment ends among some tokens whatever stands behind them, or it goes on
with what stands behind them. -/
theorem scan_append (scope : Scope) (tally : Tally) (front : List Placed) :
    (∀ back, scan scope tally (front ++ back) =
        { scan scope tally front with rest := (scan scope tally front).rest ++ back }) ∨
      (scan scope tally front).rest = [] ∧ ∀ back,
        scan scope tally (front ++ back) =
          report (scan scope tally front).faults
            (scan scope (scan scope tally front).tally back) := by
  induction front generalizing tally with
  | nil => exact Or.inr ⟨rfl, fun back => rfl⟩
  | cons placed front ih =>
      obtain ⟨token, place⟩ := placed
      simp only [List.cons_append, scan]
      cases token.kind with
      | operator op => exact ih _
      | number =>
          by_cases hfull : tally.isFull = true
          · simp only [hfull, if_true]
            exact Or.inl fun _ => trivial
          · simp only [hfull]
            exact ih _
      | identifier =>
          by_cases hfull : tally.isFull = true
          · simp only [hfull, if_true]
            exact Or.inl fun back => rfl
          · simp only [hfull]
            rcases ih tally.operand with hends | ⟨hrest, hgoes⟩
            · exact Or.inl fun back => congrArg (report _) (hends back)
            · refine Or.inr ⟨hrest, fun back => ?_⟩
              exact (congrArg (report _) (hgoes back)).trans (report_report ..)
      | comma => exact Or.inl fun back => rfl
      | assign => exact Or.inl fun back => rfl
      | sequence => exact ih _
      | preposition => exact ih _

/-- A comma ends a segment that has not ended before, and otherwise it stays
among the tokens behind the segment. -/
theorem exists_scan_append_comma {separator : Token} (h : separator.kind = .comma)
    (position : Nat) (scope : Scope) (tally : Tally) (front rest : List Placed) :
    ∃ left, scan scope tally (front ++ (separator, position) :: rest) =
        { scan scope tally front with rest := left } ∧
      (left = (scan scope tally front).rest ++ (separator, position) :: rest ∨
        (scan scope tally front).rest = [] ∧ left = rest) := by
  rcases scan_append scope tally front with hends | ⟨hrest, hgoes⟩
  · exact ⟨_, hends _, Or.inl rfl⟩
  · refine ⟨rest, ?_, Or.inr ⟨hrest, rfl⟩⟩
    rw [hgoes]
    simp [scan, h, report]

theorem tally_ofTokens (scope : Scope) (tokens : List Placed) :
    (ofTokens scope tokens).tally = (scan scope Tally.zero tokens).tally := by
  unfold ofTokens
  dsimp only
  split <;> rfl

theorem rest_ofTokens (scope : Scope) (tokens : List Placed) :
    (ofTokens scope tokens).rest = (scan scope Tally.zero tokens).rest := by
  unfold ofTokens
  dsimp only
  split <;> rfl

theorem ofTokens_congr {scope : Scope} {tokens tokens' left : List Placed}
    (h : scan scope Tally.zero tokens = { scan scope Tally.zero tokens' with rest := left }) :
    ofTokens scope tokens = { ofTokens scope tokens' with rest := left } := by
  unfold ofTokens
  dsimp only
  rw [h]
  split <;> rfl

theorem exists_ofTokens_append_comma {separator : Token} (h : separator.kind = .comma)
    (position : Nat) (scope : Scope) (front rest : List Placed) :
    ∃ left, ofTokens scope (front ++ (separator, position) :: rest) =
        { ofTokens scope front with rest := left } ∧
      (left = (ofTokens scope front).rest ++ (separator, position) :: rest ∨
        (ofTokens scope front).rest = [] ∧ left = rest) := by
  obtain ⟨left, hscan, hleft⟩ := exists_scan_append_comma h position scope Tally.zero front rest
  rw [← rest_ofTokens] at hleft
  exact ⟨left, ofTokens_congr hscan, hleft⟩

end Segment

namespace Verdict

@[simp] theorem report_nil (verdict : Verdict) : report [] verdict = verdict := rfl

@[simp] theorem report_report (faults faults' : List Diagnostic) (verdict : Verdict) :
    report faults (report faults' verdict) = report (faults ++ faults') verdict := by
  simp [report]

@[simp] theorem diagnostics_report (faults : List Diagnostic) (verdict : Verdict) :
    (report faults verdict).diagnostics = faults ++ verdict.diagnostics := rfl

@[simp] theorem scope_report (faults : List Diagnostic) (verdict : Verdict) :
    (report faults verdict).scope = verdict.scope := rfl

theorem exists_sign_of_assigned? {tokens value : List Placed} (h : assigned? tokens = some value) :
    ∃ sign, tokens = sign :: value ∧ sign.1.kind = .assign := by
  unfold assigned? at h
  split at h
  · split at h
    · rename_i token position rest hsign
      cases h
      exact ⟨(token, position), rfl, hsign⟩
    · cases h
  · cases h

/-- Tokens that do not begin with a sign of assignment stand behind whatever
value is assigned in front of them. -/
theorem assigned?_append {back : List Placed}
    (h : ∀ placed ∈ back.head?, placed.1.kind ≠ .assign) (front : List Placed) :
    assigned? (front ++ back) = (assigned? front).map (· ++ back) := by
  cases front with
  | nil =>
      cases back with
      | nil => rfl
      | cons placed back => simp [assigned?, h placed rfl]
  | cons placed front =>
      by_cases hassign : placed.1.kind = .assign <;> simp [assigned?, hassign]

theorem assigned?_append_comma {separator : Token} (h : separator.kind = .comma)
    (position : Nat) (front rest : List Placed) :
    assigned? (front ++ (separator, position) :: rest) =
      (assigned? front).map (· ++ (separator, position) :: rest) :=
  assigned?_append (by simp [h]) front

theorem ofPlaced_comma {separator : Token} (h : separator.kind = .comma) (scope : Scope)
    (position : Nat) (rest : List Placed) :
    ofPlaced scope ((separator, position) :: rest) = ofPlaced scope rest := by
  rw [ofPlaced_cons]
  simp only [h]

/-- What stands behind a comma is validated like a sentence of its own in the
scope that is left by what stands before. -/
theorem ofPlaced_append_comma {separator : Token} (h : separator.kind = .comma)
    (position : Nat) (scope : Scope) (front rest : List Placed) :
    ofPlaced scope (front ++ (separator, position) :: rest) =
      report (ofPlaced scope front).diagnostics
        (ofPlaced (ofPlaced scope front).scope rest) := by
  -- A segment can end anywhere in front of the comma, hence the induction on the length.
  induction hlength : front.length using Nat.strongRecOn generalizing front scope with
  | _ length ih =>
      subst hlength
      cases front with
      | nil =>
          rw [List.nil_append, ofPlaced_comma h, ofPlaced_nil]
          rfl
      | cons placed front =>
          obtain ⟨token, place⟩ := placed
          -- A segment leaves the comma to be passed over, or takes it with it.
          have hresume : ∀ (scope : Scope) (behind left : List Placed),
              behind.length < front.length + 1 →
              (left = behind ++ (separator, position) :: rest ∨ behind = [] ∧ left = rest) →
              ofPlaced scope left =
                report (ofPlaced scope behind).diagnostics
                  (ofPlaced (ofPlaced scope behind).scope rest) := by
            intro scope behind left hshorter hleft
            rcases hleft with rfl | ⟨rfl, rfl⟩
            · exact ih behind.length hshorter scope behind rfl
            · rw [ofPlaced_nil]
              rfl
          have hfront := hresume scope front _ (Nat.lt_succ_self _) (Or.inl rfl)
          rw [List.cons_append, ofPlaced_cons, ofPlaced_cons, assigned?_append_comma h]
          cases hkind : token.kind with
          | identifier =>
              cases hassigned : assigned? front with
              | none => simp [hfront]
              | some value =>
                  obtain ⟨left, hsegment, hleft⟩ :=
                    Segment.exists_ofTokens_append_comma h position scope value rest
                  have hvalue := length_assigned? hassigned
                  have hbehind := Segment.length_rest_ofTokens_le scope value
                  simp [hsegment, assignmentFaults,
                    hresume _ _ left (by omega) hleft]
          | operator op =>
              obtain ⟨left, hsegment, hleft⟩ :=
                Segment.exists_ofTokens_append_comma h position scope ((token, place) :: front) rest
              have hbehind := Segment.length_rest_ofTokens_lt scope hkind place front
              rw [List.cons_append] at hsegment
              simp [hsegment, hresume _ _ left hbehind hleft]
          | number => exact hfront
          | sequence => exact hfront
          | preposition => exact hfront
          | comma => exact hfront
          | assign => exact hfront

end Verdict

/-! ## Statements -/

/-- The statements of a sentence, which are the stretches between its commas
that are not empty. -/
def statements (tokens : List Placed) : List (List Placed) :=
  (tokens.splitOnP fun placed => placed.1.kind == .comma).filter fun statement =>
    !statement.isEmpty

/-- A statement and the scope in which it is validated. -/
structure Stage where
  statement : List Placed
  /-- The names that are defined in front of the statement. -/
  scope : Scope

namespace Stage

/-- The verdict on a statement by itself. -/
def verdict (stage : Stage) : Verdict :=
  Verdict.ofPlaced stage.scope stage.statement

/-- The scope that some statements leave behind them. -/
def scopeBehind (scope : Scope) (statements : List (List Placed)) : Scope :=
  statements.foldl (fun scope statement => (Verdict.ofPlaced scope statement).scope) scope

/-- The stages of some statements, each in the scope that the statements before
it leave. -/
def ofStatements (scope : Scope) : List (List Placed) → List Stage
  | [] => []
  | statement :: rest =>
      ⟨statement, scope⟩ :: ofStatements (Verdict.ofPlaced scope statement).scope rest

@[simp] theorem scopeBehind_nil (scope : Scope) : scopeBehind scope [] = scope := rfl

@[simp] theorem scopeBehind_cons (scope : Scope) (statement : List Placed)
    (rest : List (List Placed)) :
    scopeBehind scope (statement :: rest) =
      scopeBehind (Verdict.ofPlaced scope statement).scope rest := rfl

theorem scopeBehind_append (scope : Scope) (front rest : List (List Placed)) :
    scopeBehind scope (front ++ rest) = scopeBehind (scopeBehind scope front) rest := by
  simp [scopeBehind, List.foldl_append]

theorem ofStatements_append (scope : Scope) (front rest : List (List Placed)) :
    ofStatements scope (front ++ rest) =
      ofStatements scope front ++ ofStatements (scopeBehind scope front) rest := by
  induction front generalizing scope with
  | nil => rfl
  | cons statement front ih => simp [ofStatements, ih]

theorem mem_statements_of_mem {scope : Scope} {stage : Stage} {statements : List (List Placed)}
    (h : stage ∈ ofStatements scope statements) : stage.statement ∈ statements := by
  induction statements generalizing scope with
  | nil => cases h
  | cons statement rest ih =>
      rcases List.mem_cons.mp h with rfl | hrest
      · exact List.mem_cons_self
      · exact List.mem_cons_of_mem _ (ih hrest)

end Stage

theorem statements_append_comma {separator : Token} (h : separator.kind = .comma)
    (position : Nat) (front rest : List Placed) :
    statements (front ++ (separator, position) :: rest) = statements front ++ statements rest := by
  unfold statements
  rw [List.splitOnP_append_cons front rest (by simp [h]), List.filter_append]

theorem statements_of_forall_ne_comma {tokens : List Placed}
    (h : ∀ placed ∈ tokens, placed.1.kind ≠ .comma) (hne : tokens ≠ []) :
    statements tokens = [tokens] := by
  unfold statements
  rw [List.splitOnP_eq_singleton (by simpa using h)]
  simp [hne]

/-- Commas stand between statements only. -/
theorem kind_ne_comma_of_mem_statements {tokens statement : List Placed}
    (h : statement ∈ statements tokens) : ∀ placed ∈ statement, placed.1.kind ≠ .comma := by
  have hmem := (List.mem_filter.mp h).1
  clear h
  induction tokens generalizing statement with
  | nil =>
      rw [List.splitOnP_nil, List.mem_singleton] at hmem
      simp [hmem]
  | cons placed rest ih =>
      rw [List.splitOnP_cons_eq_if_modifyHead] at hmem
      by_cases hcomma : placed.1.kind = .comma
      · simp only [hcomma, beq_self_eq_true, if_true, List.mem_cons] at hmem
        rcases hmem with rfl | hmem
        · simp
        · exact ih hmem
      · obtain ⟨first, others, hsplit⟩ := List.exists_cons_of_ne_nil
          (List.splitOnP_ne_nil (fun placed : Placed => placed.1.kind == .comma) rest)
        rw [hsplit] at hmem ih
        simp only [beq_eq_false_iff_ne.mpr hcomma, Bool.false_eq_true, if_false,
          List.modifyHead_cons, List.mem_cons] at hmem
        rcases hmem with rfl | hmem
        · simpa [hcomma] using ih List.mem_cons_self
        · exact ih (List.mem_cons_of_mem _ hmem)

/-- Validation goes from statement to statement. -/
theorem Verdict.ofPlaced_eq_stages (scope : Scope) (tokens : List Placed) :
    ofPlaced scope tokens =
      ⟨(Stage.ofStatements scope (statements tokens)).flatMap (·.verdict.diagnostics),
        Stage.scopeBehind scope (statements tokens)⟩ := by
  induction hlength : tokens.length using Nat.strongRecOn generalizing tokens scope with
  | _ length ih =>
      subst hlength
      by_cases hcomma : ∃ placed ∈ tokens, placed.1.kind = .comma
      · obtain ⟨⟨separator, position⟩, hmem, h⟩ := hcomma
        obtain ⟨front, rest, rfl⟩ := List.append_of_mem hmem
        have hfront := ih front.length (by simp) scope front rfl
        have hrest := ih rest.length (by simp; omega) (ofPlaced scope front).scope rest rfl
        rw [ofPlaced_append_comma h, statements_append_comma h, hrest, hfront,
          Stage.ofStatements_append, Stage.scopeBehind_append, List.flatMap_append]
        rfl
      · by_cases hne : tokens = []
        · subst hne
          simp [statements, Stage.ofStatements]
        · have hsingle : statements tokens = [tokens] :=
            statements_of_forall_ne_comma
              (fun placed hmem hkind => hcomma ⟨placed, hmem, hkind⟩) hne
          simp [hsingle, Stage.ofStatements, Stage.verdict]

end SpokenArithmetic
