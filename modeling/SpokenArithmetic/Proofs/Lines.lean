import SpokenArithmetic.Proofs.Growth

/-!
# Lines of a file

If the meaning is left out, the lines of a file have nothing to do with one another
(`lines_independent`).  The scope is still handed on from line to line, and it decides
about faults of meaning.  But neither the report nor the exit status looks at those
(`Outcome.ofAnalysis_analyze`), so that each line comes out as it does in a run of its
own.

The sentences of a file are found by its line feeds alone.  A carriage return in
front of one belongs to the end of the line as well, but it is a blank and goes with
the other blanks (`Outcome.sentencesOf_eq_linesOf`).
-/

namespace SpokenArithmetic

namespace Text

/-- Some lines with more characters in front of the first of them. -/
def prepend (front : List Char) : List (List Char) → List (List Char)
  | [] => [front]
  | line :: rest => (front ++ line) :: rest

/-- The lines of a text.  Each ends in a line feed, or in a carriage return and a line
feed, but the last one need not. -/
def lines : List Char → List (List Char)
  | [] => []
  | '\n' :: rest => [] :: lines rest
  | '\r' :: '\n' :: rest => [] :: lines rest
  | c :: rest => prepend [c] (lines rest)

/-- Those of some lines that are not blank, without the blanks around them. -/
def trimmed (lines : List (List Char)) : List (List Char) :=
  (lines.map trim).filter (!·.isEmpty)

end Text

namespace Outcome

/-- The lines of a text that are not blank, without the blanks around them. -/
def linesOf (text : String) : List String :=
  (Text.trimmed (Text.lines text.toList)).map String.ofList

/-- The outcomes for the lines of a text, each of them in a run of its own. -/
def lineRuns (options : Options) (text : String) : List Outcome :=
  (linesOf text).map fun line => ofSentences options [line]

/-- Whether a run writes what some other runs write, one after another, and succeeds if
all of them do. -/
structure MadeOf (outcome : Outcome) (runs : List Outcome) : Prop where
  stdout : outcome.stdout = String.join (runs.map (·.stdout))
  stderr : outcome.stderr = String.join (runs.map (·.stderr))
  status : outcome.exitStatus = 0 ↔ ∀ run ∈ runs, run.exitStatus = 0

end Outcome

/-! ## Line breaks -/

namespace Text

theorem prepend_prepend (front back : List Char) (lines : List (List Char)) :
    prepend front (prepend back lines) = prepend (front ++ back) lines := by
  cases lines with
  | nil => rfl
  | cons line rest => simp [prepend]

theorem splitOn_cons (c : Char) (cs : List Char) :
    (c :: cs).splitOn '\n' =
      if c = '\n' then [] :: cs.splitOn '\n' else prepend [c] (cs.splitOn '\n') := by
  unfold List.splitOn
  have hne := List.splitOnP_ne_nil (· == '\n') cs
  rw [List.splitOnP_cons_eq_if_modifyHead]
  cases hsplit : cs.splitOnP (· == '\n') with
  | nil => exact absurd hsplit hne
  | cons line rest => simp [prepend]

@[simp] theorem trimmed_prepend_nil (lines : List (List Char)) :
    trimmed (prepend [] lines) = trimmed lines := by
  cases lines <;> rfl

theorem trimmed_cons (line : List Char) (lines : List (List Char)) :
    trimmed (line :: lines) = trimmed [line] ++ trimmed lines := by
  rw [trimmed, List.map_cons, ← List.singleton_append, List.filter_append]
  rfl

/-- A carriage return at the end of a line is trimmed away. -/
theorem trimmed_append_return (line : List Char) : trimmed [line ++ ['\r']] = trimmed [line] := by
  have hreturn : isBlank '\r' = true := by
    decide
  have hblank : ∀ c ∈ ['\r'], isBlank c = true := by
    simpa using hreturn
  simp only [trimmed, List.map_cons, trim_append_right hblank]

/-- Behind any front, the pieces between line feeds are trimmed to what the lines are. -/
theorem trimmed_prepend_splitOn (front cs : List Char) :
    trimmed (prepend front (cs.splitOn '\n')) = trimmed (prepend front (lines cs)) := by
  induction cs using lines.induct generalizing front with
  | case1 => simp [lines, prepend]
  | case2 rest ih =>
      have hrest := ih []
      rw [trimmed_prepend_nil, trimmed_prepend_nil] at hrest
      rw [splitOn_cons, if_pos rfl, lines, prepend, prepend, trimmed_cons, hrest, ← trimmed_cons]
  | case3 rest ih =>
      have hrest := ih []
      rw [trimmed_prepend_nil, trimmed_prepend_nil] at hrest
      rw [splitOn_cons, if_neg (by decide), prepend_prepend, splitOn_cons, if_pos rfl, lines,
        prepend, prepend, List.append_nil, List.append_nil, trimmed_cons, trimmed_append_return,
        hrest, ← trimmed_cons]
  | case4 c rest hfeed hreturn ih =>
      rw [splitOn_cons, if_neg hfeed, prepend_prepend, ih, lines, prepend_prepend]
      · exact hfeed
      · exact hreturn

end Text

namespace Outcome

theorem sentencesOf_eq_linesOf (text : String) : sentencesOf text = linesOf text := by
  have htrimmed := Text.trimmed_prepend_splitOn [] text.toList
  rw [Text.trimmed_prepend_nil, Text.trimmed_prepend_nil] at htrimmed
  exact congrArg (List.map String.ofList) htrimmed

/-! ## Runs -/

variable {options : Options}

/-- The faults of meaning do not show if the meaning is left out. -/
theorem ofAnalysis_congr (h : options.skipSemantics = true) {analysis analysis' : Analysis}
    (htranscript : analysis.transcript = analysis'.transcript)
    (hstructured : analysis.structured = analysis'.structured) :
    ofAnalysis options analysis = ofAnalysis options analysis' := by
  unfold ofAnalysis Report.render Analysis.isStructured
  simp only [if_pos h, htranscript, hstructured]

/-- Then the scope in front of a sentence does not show either. -/
theorem ofAnalysis_analyze (h : options.skipSemantics = true) (source : String)
    (scope scope' : Scope) :
    ofAnalysis options (analyze source scope).1 = ofAnalysis options (analyze source scope').1 :=
  ofAnalysis_congr h rfl rfl

theorem ofSentences_singleton (options : Options) (source : String) :
    ofSentences options [source] = ofAnalysis options (analyze source Scope.empty).1 := by
  simp [ofSentences, analyzeAll]

/-- From whatever scope they start, sentences come out as each of them by itself. -/
theorem map_ofAnalysis_analyzeAll (h : options.skipSemantics = true) (sources : List String)
    (scope : Scope) :
    (analyzeAll sources scope).1.map (ofAnalysis options) =
      sources.map fun source => ofSentences options [source] := by
  induction sources generalizing scope with
  | nil => rfl
  | cons source rest ih =>
      rw [List.map_cons, ofSentences_singleton,
        ← ofAnalysis_analyze h source scope, ← ih]
      rfl

theorem madeOf_foldr (runs : List Outcome) : (runs.foldr (· ++ ·) empty).MadeOf runs := by
  induction runs with
  | nil => exact ⟨rfl, rfl, by simp [exitStatus, empty]⟩
  | cons run rest ih =>
      constructor
      · rw [List.foldr_cons, stdout_append, ih.stdout, List.map_cons, String.join_cons]
      · rw [List.foldr_cons, stderr_append, ih.stderr, List.map_cons, String.join_cons]
      · rw [List.forall_mem_cons, ← ih.status]
        simp only [exitStatus_eq_zero_iff, List.foldr_cons, success_append, Bool.and_eq_true]

/-- A file is run like its lines, each by itself. -/
theorem madeOf_lineRuns (h : options.skipSemantics = true) (name text : String) :
    (ofFile options name (some text.toUTF8)).MadeOf (lineRuns options text) := by
  rw [ofFile_toUTF8, sentencesOf_eq_linesOf, ofSentences, map_ofAnalysis_analyzeAll h]
  exact madeOf_foldr _

/-- The order of the runs that a run is made of does not show in its exit status. -/
theorem MadeOf.exitStatus_eq {outcome outcome' : Outcome} {runs runs' : List Outcome}
    (h : outcome.MadeOf runs) (h' : outcome'.MadeOf runs') (hperm : runs.Perm runs') :
    outcome.exitStatus = outcome'.exitStatus := by
  have hstatus : outcome.exitStatus = 0 ↔ outcome'.exitStatus = 0 := by
    rw [h.status, h'.status]
    exact forall_congr' fun run => imp_congr_left hperm.mem_iff
  rw [exitStatus_eq_zero_iff, exitStatus_eq_zero_iff] at hstatus
  rw [exitStatus, exitStatus, Bool.eq_iff_iff.mpr hstatus]

end Outcome

open Outcome in
/-- If the meaning is left out, a file is run like its lines that are not blank, each by
itself.  So to put them in another order does the same to their reports, and leaves the
exit status as it is. -/
theorem lines_independent (listTokens : Bool) :
    (∀ name text, (ofFile ⟨listTokens, true⟩ name (some text.toUTF8)).MadeOf
      (lineRuns ⟨listTokens, true⟩ text)) ∧
    ∀ name name' text text', (linesOf text).Perm (linesOf text') →
      (lineRuns ⟨listTokens, true⟩ text).Perm (lineRuns ⟨listTokens, true⟩ text') ∧
        (ofFile ⟨listTokens, true⟩ name (some text.toUTF8)).exitStatus =
          (ofFile ⟨listTokens, true⟩ name' (some text'.toUTF8)).exitStatus := by
  have hskip : (⟨listTokens, true⟩ : Options).skipSemantics = true := rfl
  have hmade := madeOf_lineRuns hskip
  refine ⟨hmade, fun name name' text text' hlines => ?_⟩
  have hruns := hlines.map fun line => ofSentences ⟨listTokens, true⟩ [line]
  exact ⟨hruns, (hmade name text).exitStatus_eq (hmade name' text') hruns⟩

/-- The name that the first file reads is not yet defined there, and in the second one it
is, but both succeed. -/
theorem lines_independent_of_exchanged :
    (Outcome.linesOf "y = x\r\n\nx = 2\n").Perm (Outcome.linesOf "x = 2\n\ty = x ") ∧
      (Outcome.ofFile ⟨true, true⟩ "uno" (some "y = x\r\n\nx = 2\n".toUTF8)).exitStatus =
        (Outcome.ofFile ⟨true, true⟩ "dos" (some "x = 2\n\ty = x ".toUTF8)).exitStatus ∧
      (Outcome.ofFile ⟨true, true⟩ "dos" (some "x = 2\n\ty = x ".toUTF8)).exitStatus = 0 := by
  have hlines : (Outcome.linesOf "y = x\r\n\nx = 2\n").Perm
      (Outcome.linesOf "x = 2\n\ty = x ") := by
    decide +kernel
  have hruns : ∀ run ∈ Outcome.lineRuns ⟨true, true⟩ "x = 2\n\ty = x ", run.exitStatus = 0 := by
    decide +kernel
  obtain ⟨hmade, hexchanged⟩ := lines_independent true
  exact ⟨hlines, (hexchanged "uno" "dos" _ _ hlines).2, (hmade "dos" _).status.mpr hruns⟩

end SpokenArithmetic
