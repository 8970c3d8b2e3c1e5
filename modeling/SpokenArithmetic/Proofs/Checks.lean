import SpokenArithmetic.Proofs.FlatCount
import SpokenArithmetic.Proofs.Stage

/-!
# Validation as a list of checks

The tokens alone decide what validation does, but for whether the names that it
reads are known.  So validation can be taken apart.  The tokens are cut into
checks first, without any scope (`Verdict.checks`).  A check is a segment or a
single name between segments, and it may be the value of an assignment.  Then
the checks are gone through in order, each in the scope that the assignments
before it leave (`Check.run`).  Together the two are validation
(`Verdict.ofPlaced_eq_run`).

In a check the scope decides which of its names are reported, and whether its
missing operands are (`Check.faults`).  Nothing else depends on it.
-/

namespace SpokenArithmetic

/-- The name that a token reads. -/
def Token.name? (token : Token) : Option String :=
  if token.kind = .identifier then some token.normalized else none

/-- The names among some tokens, from left to right. -/
def namesOf (tokens : List Placed) : List String :=
  tokens.filterMap fun placed => placed.1.name?

/-- How a segment ends. -/
inductive Ending where
  /-- Behind a comma, or with the sentence. -/
  | complete
  /-- Behind an operand that no operator asks for. -/
  | surplus (text : String)
  /-- Behind a sign of assignment. -/
  | stray (text : String)
deriving DecidableEq, Repr

/-- The fault at the token that breaks a segment. -/
def Ending.faults : Ending → List Diagnostic
  | complete => []
  | surplus text => [.unexpectedOperand text]
  | stray text => [.unexpectedToken text]

/-- The fault at a token where it breaks a segment, as an operand that is one too
many or as a sign of assignment. -/
def Token.breach? (token : Token) : Option Diagnostic :=
  match token.kind with
  | .number | .identifier => some (.unexpectedOperand token.written)
  | .assign => some (.unexpectedToken token.written)
  | .operator _ | .sequence | .preposition | .comma => none

/-- How a segment ends behind a token.  Most tokens do not end it. -/
def Tally.ending? (tally : Tally) (token : Token) : Option Ending :=
  match token.kind with
  | .number | .identifier => if tally.isFull then some (.surplus token.written) else none
  | .comma => some .complete
  | .assign => some (.stray token.written)
  | .operator _ | .sequence | .preposition => none

/-- A token that ends a segment is a comma or at fault. -/
theorem Tally.comma_or_breach_of_ending? {tally : Tally} {token : Token} {ending : Ending}
    (h : tally.ending? token = some ending) :
    token.kind = .comma ∨ ∃ fault, token.breach? = some fault ∧ ending.faults = [fault] := by
  unfold ending? at h
  unfold Token.breach?
  cases hkind : token.kind with
  | comma => exact Or.inl rfl
  | number | identifier =>
      by_cases hfull : tally.isFull = true
      · simp only [hkind, hfull, if_true, Option.some.injEq] at h
        exact Or.inr ⟨_, rfl, h ▸ rfl⟩
      · simp [hkind, hfull] at h
  | assign =>
      simp only [hkind, Option.some.injEq] at h
      exact Or.inr ⟨_, rfl, h ▸ rfl⟩
  | operator op | sequence | preposition => simp [hkind] at h

/-- How far a segment goes. -/
structure Extent where
  /-- The tokens of the segment, with the one that ends it. -/
  taken : List Placed
  ending : Ending
  rest : List Placed

namespace Extent

/-- A segment that goes back as far as one more token. -/
def push (placed : Placed) (extent : Extent) : Extent :=
  { extent with taken := placed :: extent.taken }

/-- How far the segment goes that goes on from what has been counted. -/
def ofTokens (tally : Tally) : List Placed → Extent
  | [] => ⟨[], .complete, []⟩
  | placed :: rest =>
      match tally.ending? placed.1 with
      | some ending => ⟨[placed], ending, rest⟩
      | none => push placed (ofTokens (tally.after placed.1) rest)

theorem ofTokens_of_ending {tally : Tally} {placed : Placed} {ending : Ending}
    (h : tally.ending? placed.1 = some ending) (rest : List Placed) :
    ofTokens tally (placed :: rest) = ⟨[placed], ending, rest⟩ := by
  rw [ofTokens, h]

theorem ofTokens_of_goesOn {tally : Tally} {placed : Placed} (h : tally.ending? placed.1 = none)
    (rest : List Placed) :
    ofTokens tally (placed :: rest) = push placed (ofTokens (tally.after placed.1) rest) := by
  rw [ofTokens, h]

/-- A segment takes tokens from the front and leaves the others. -/
theorem taken_append_rest (tally : Tally) (tokens : List Placed) :
    (ofTokens tally tokens).taken ++ (ofTokens tally tokens).rest = tokens := by
  induction tokens generalizing tally with
  | nil => rfl
  | cons placed rest ih =>
      cases h : tally.ending? placed.1 with
      | some ending =>
          rw [ofTokens_of_ending h]
          rfl
      | none =>
          rw [ofTokens_of_goesOn h]
          exact congrArg (placed :: ·) (ih _)

theorem length_rest_ofTokens_le (tally : Tally) (tokens : List Placed) :
    (ofTokens tally tokens).rest.length ≤ tokens.length := by
  have h := congrArg List.length (taken_append_rest tally tokens)
  rw [List.length_append] at h
  omega

/-- A segment that begins with an operator takes that operator. -/
theorem length_rest_ofTokens_lt (tally : Tally) {token : Token} {op : Operator}
    (h : token.kind = .operator op) (position : Nat) (rest : List Placed) :
    (ofTokens tally ((token, position) :: rest)).rest.length < rest.length + 1 := by
  rw [ofTokens_of_goesOn (by simp [Tally.ending?, h])]
  exact Nat.lt_succ_of_le (length_rest_ofTokens_le _ rest)

/-- Tokens are left behind a segment only if its last token has ended it, as a
comma or as the token that breaks it. -/
theorem exists_last_of_rest_ne_nil {tally : Tally} {tokens : List Placed}
    (h : (ofTokens tally tokens).rest ≠ []) :
    ∃ front last, (ofTokens tally tokens).taken = front ++ [last] ∧
      (last.1.kind = .comma ∨
        ∃ fault, last.1.breach? = some fault ∧ (ofTokens tally tokens).ending.faults = [fault]) := by
  induction tokens generalizing tally with
  | nil => exact absurd rfl h
  | cons placed rest ih =>
      cases hending : tally.ending? placed.1 with
      | some ending =>
          rw [ofTokens_of_ending hending]
          exact ⟨[], placed, rfl, Tally.comma_or_breach_of_ending? hending⟩
      | none =>
          rw [ofTokens_of_goesOn hending] at h ⊢
          obtain ⟨front, last, htaken, hlast⟩ := ih h
          exact ⟨placed :: front, last, congrArg (placed :: ·) htaken, hlast⟩

end Extent

/-! ## A segment without its scope -/

namespace Segment

/-- One token of a segment is read, is counted, and may be the last one. -/
theorem scan_cons (scope : Scope) (tally : Tally) (placed : Placed) (rest : List Placed) :
    scan scope tally (placed :: rest) =
      report (readNames scope placed.1.name?.toList)
        (match tally.ending? placed.1 with
        | some ending => ⟨ending.faults, tally.after placed.1, rest⟩
        | none => scan scope (tally.after placed.1) rest) := by
  obtain ⟨token, position⟩ := placed
  rw [scan]
  unfold Token.name? Tally.ending? Tally.after
  cases hkind : token.kind with
  | number => by_cases hfull : tally.isFull = true <;> simp [hfull, Ending.faults]
  | identifier =>
      by_cases hfull : tally.isFull = true <;> simp [hfull, Ending.faults, readNames_singleton]
  | operator op => rfl
  | comma => rfl
  | assign => rfl
  | sequence => rfl
  | preposition => rfl

theorem faults_ofTokens (scope : Scope) (tokens : List Placed) :
    (ofTokens scope tokens).faults =
      if (scan scope Tally.zero tokens).faults = [] then
        (scan scope Tally.zero tokens).tally.missing
      else
        (scan scope Tally.zero tokens).faults := by
  simp only [ofTokens, List.isEmpty_iff]
  split <;> rfl

/-- The scope of a segment decides only which of its names are reported. -/
theorem scan_eq_extent (scope : Scope) (tally : Tally) (tokens : List Placed) :
    scan scope tally tokens =
      ⟨readNames scope (namesOf (Extent.ofTokens tally tokens).taken) ++
          (Extent.ofTokens tally tokens).ending.faults,
        tally.count ((Extent.ofTokens tally tokens).taken.map Prod.fst),
        (Extent.ofTokens tally tokens).rest⟩ := by
  induction tokens generalizing tally with
  | nil => rfl
  | cons placed rest ih =>
      have hnames : ∀ tokens, readNames scope (namesOf (placed :: tokens)) =
          readNames scope placed.1.name?.toList ++ readNames scope (namesOf tokens) := by
        intro tokens
        rw [← readNames_append, namesOf, List.filterMap_cons]
        cases placed.1.name? <;> rfl
      rw [scan_cons]
      cases hending : tally.ending? placed.1 with
      | some ending =>
          rw [Extent.ofTokens_of_ending hending, hnames]
          simp [report, namesOf, Tally.count_cons]
      | none =>
          rw [Extent.ofTokens_of_goesOn hending, ih]
          simp [report, Extent.push, hnames, Tally.count_cons]

end Segment

/-! ## Checks -/

/-- What validation checks as one. -/
structure Check where
  /-- The target, if what is checked is the value of an assignment. -/
  target? : Option Placed
  tokens : List Placed
  ending : Ending

namespace Check

open Segment

/-- The segment that is the value of an assignment, or has no target. -/
def ofExtent (target? : Option Placed) (extent : Extent) : Check :=
  ⟨target?, extent.taken, extent.ending⟩

/-- A name outside segments. -/
def ofName (placed : Placed) : Check :=
  ⟨none, [placed], .complete⟩

def names (check : Check) : List String :=
  namesOf check.tokens

def tally (check : Check) : Tally :=
  Tally.zero.count (check.tokens.map Prod.fst)

/-- The fault of an assignment without a value. -/
def emptiness (check : Check) : List Diagnostic :=
  match check.target? with
  | some (target, _) =>
      if check.tally.terms = 0 then [.missingExpression target.normalized] else []
  | none => []

/-- All faults of a check but those of its names.  Missing operands are among
them only if the names are `known` and nothing breaks the segment. -/
def arityFaults (check : Check) (known : Bool) : List Diagnostic :=
  (if known && check.ending == .complete then check.tally.missing else check.ending.faults) ++
    check.emptiness

/-- All faults of a check. -/
def faults (check : Check) (scope : Scope) : List Diagnostic :=
  readNames scope check.names ++
    check.arityFaults (check.names.all fun name => scope.isDefined name)

/-- The scope behind a check, where its target is defined. -/
def scopeBehind (check : Check) (scope : Scope) : Scope :=
  match check.target? with
  | some (target, position) => scope.define target.normalized position
  | none => scope

/-- The faults of some checks in order, each in the scope that those before it
leave. -/
def reports (scope : Scope) : List Check → List (List Diagnostic)
  | [] => []
  | check :: rest => check.faults scope :: reports (check.scopeBehind scope) rest

/-- The verdict of some checks. -/
def run (scope : Scope) : List Check → Verdict
  | [] => ⟨[], scope⟩
  | check :: rest => Verdict.report (check.faults scope) (run (check.scopeBehind scope) rest)

theorem diagnostics_run (scope : Scope) (checks : List Check) :
    (run scope checks).diagnostics = (reports scope checks).flatten := by
  induction checks generalizing scope with
  | nil => rfl
  | cons check rest ih =>
      rw [run, reports, Verdict.diagnostics_report, List.flatten_cons, ih]

end Check

namespace Verdict

/-- The checks of validation, in order. -/
def checks : List Placed → List Check
  | [] => []
  | (token, position) :: rest =>
      match _ : token.kind with
      | .identifier =>
          match _ : assigned? rest with
          | some value =>
              let extent := Extent.ofTokens Tally.zero value
              .ofExtent (some (token, position)) extent :: checks extent.rest
          | none => .ofName (token, position) :: checks rest
      | .operator _ =>
          let extent := Extent.ofTokens Tally.zero ((token, position) :: rest)
          .ofExtent none extent :: checks extent.rest
      | .number | .sequence | .preposition | .comma | .assign => checks rest
termination_by tokens => tokens.length
decreasing_by
  · have := length_assigned? ‹_›
    have := Extent.length_rest_ofTokens_le Tally.zero value
    simp only [List.length_cons]
    omega
  · simp
  · exact Extent.length_rest_ofTokens_lt Tally.zero ‹_› position rest
  all_goals simp

@[simp] theorem checks_nil : checks [] = [] := by
  rw [checks]

/-- The first token of what follows decides what is checked next. -/
theorem checks_cons (token : Token) (position : Nat) (rest : List Placed) :
    checks ((token, position) :: rest) =
      match token.kind with
      | .identifier =>
          match assigned? rest with
          | some value =>
              .ofExtent (some (token, position)) (Extent.ofTokens Tally.zero value) ::
                checks (Extent.ofTokens Tally.zero value).rest
          | none => .ofName (token, position) :: checks rest
      | .operator _ =>
          .ofExtent none (Extent.ofTokens Tally.zero ((token, position) :: rest)) ::
            checks (Extent.ofTokens Tally.zero ((token, position) :: rest)).rest
      | .number | .sequence | .preposition | .comma | .assign => checks rest := by
  rw [checks]
  split <;> rename_i hkind <;> rw [hkind]
  split <;> rename_i hassigned <;> rw [hassigned]

end Verdict

/-! ## Validation is the run of its checks -/

namespace Check

open Segment

theorem readNames_eq_nil_iff (scope : Scope) (names : List String) :
    readNames scope names = [] ↔ (names.all fun name => scope.isDefined name) = true := by
  rw [readNames_eq_map, List.map_eq_nil_iff, List.filter_eq_nil_iff, List.all_eq_true]
  simp

/-- A segment is checked in the same way with and without a target, except that
with one it may not be empty. -/
theorem faults_ofExtent (target? : Option Placed) (scope : Scope) (tokens : List Placed) :
    (ofExtent target? (Extent.ofTokens Tally.zero tokens)).faults scope =
      (Segment.ofTokens scope tokens).faults ++
        (ofExtent target? (Extent.ofTokens Tally.zero tokens)).emptiness := by
  rw [Segment.faults_ofTokens, scan_eq_extent]
  generalize Extent.ofTokens Tally.zero tokens = extent
  unfold faults arityFaults
  rw [← List.append_assoc]
  congr 1
  have hread := readNames_eq_nil_iff scope (namesOf extent.taken)
  by_cases hknown : ((namesOf extent.taken).all fun name => scope.isDefined name) = true
  · cases hending : extent.ending <;>
      simp [ofExtent, names, tally, hread.mpr hknown, hknown, hending, Ending.faults]
  · have hne := mt hread.mp hknown
    simp [ofExtent, names, hknown, hne]

theorem faults_ofName (scope : Scope) (placed : Placed) (h : placed.1.kind = .identifier) :
    (ofName placed).faults scope = readName scope placed.1.normalized := by
  have hnames : (ofName placed).names = [placed.1.normalized] := by
    simp [ofName, names, namesOf, Token.name?, h]
  have hmissing : (ofName placed).tally.missing = [] := by
    simp [ofName, tally, Tally.count, Tally.after, h, Tally.missing, Tally.operand, Tally.zero]
  rw [faults, arityFaults, hmissing, hnames, readNames_singleton]
  simp [ofName, emptiness, Ending.faults]

end Check

namespace Verdict

/-- Validation goes through its checks. -/
theorem ofPlaced_eq_run (scope : Scope) (tokens : List Placed) :
    ofPlaced scope tokens = Check.run scope (checks tokens) := by
  induction hlength : tokens.length using Nat.strongRecOn generalizing tokens scope with
  | _ length ih =>
      subst hlength
      cases tokens with
      | nil => rw [ofPlaced_nil, checks_nil, Check.run]
      | cons placed rest =>
          obtain ⟨token, position⟩ := placed
          have hrest := ih rest.length (Nat.lt_succ_self _) scope rest rfl
          have hsegment : ∀ tokens, (Segment.ofTokens scope tokens).rest =
              (Extent.ofTokens Tally.zero tokens).rest := by
            intro tokens
            rw [Segment.rest_ofTokens, Segment.scan_eq_extent]
          rw [ofPlaced_cons, checks_cons]
          cases hkind : token.kind with
          | identifier =>
              cases hassigned : assigned? rest with
              | none =>
                  simp only [Check.run, Check.faults_ofName scope (token, position) hkind, hrest]
                  rfl
              | some value =>
                  have hvalue := length_assigned? hassigned
                  have hbehind := Extent.length_rest_ofTokens_le Tally.zero value
                  simp only [Check.run, Check.faults_ofExtent, hsegment, assignmentFaults]
                  rw [ih _ (by simp only [List.length_cons]; omega) _ _ rfl,
                    Segment.tally_ofTokens, Segment.scan_eq_extent]
                  rfl
          | operator op =>
              have hbehind := Extent.length_rest_ofTokens_lt Tally.zero hkind position rest
              simp only [Check.run, Check.faults_ofExtent, hsegment]
              rw [ih _ hbehind _ _ rfl]
              simp [Check.emptiness, Check.ofExtent, Check.scopeBehind]
          | number => exact hrest
          | sequence => exact hrest
          | preposition => exact hrest
          | comma => exact hrest
          | assign => exact hrest

end Verdict
end SpokenArithmetic
