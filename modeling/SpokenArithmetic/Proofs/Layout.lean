import SpokenArithmetic.Proofs.Coverage
import SpokenArithmetic.Proofs.Gaps

/-!
# Layout

How many blanks stand between two words, and which ones, makes no difference.  A
text is collapsed by taking one space for each run of blanks and none at its two
ends.  Two sentences that collapse to the same text have the same tokens but for
their places and for the texts of their numbers, and so they say the same
(`layout_inert`).  What is unrecognized in them collapses to the same texts
as well, since blanks inside of a stretch are part of it.
-/

namespace SpokenArithmetic

open Lexeme

namespace Text

/-- A text with one space in the place of each run of blanks. -/
def squeeze : List Char → List Char
  | [] => []
  | c :: rest =>
      if isBlank c then
        -- Only the last blank of a run leaves a space.
        if rest.head?.any isBlank then squeeze rest else ' ' :: squeeze rest
      else
        c :: squeeze rest

/-- A text with one space in the place of each run of blanks, and without those at
its two ends. -/
def collapse (cs : List Char) : List Char :=
  trim (squeeze cs)

/-- A sentence with one space in the place of each run of blanks, and without those
at its two ends. -/
def collapsed (source : String) : String :=
  String.ofList (collapse source.toList)

/-! ## Squeezed texts -/

@[simp] theorem squeeze_nil : squeeze [] = [] := rfl

theorem isBlank_space : isBlank ' ' = true := by
  decide

theorem squeeze_cons_of_not_isBlank {c : Char} (hc : isBlank c = false) (cs : List Char) :
    squeeze (c :: cs) = c :: squeeze cs := by
  simp [squeeze, hc]

/-- A blank leaves nothing or a space. -/
theorem squeeze_cons_of_isBlank {c : Char} (hc : isBlank c = true) (cs : List Char) :
    squeeze (c :: cs) = squeeze cs ∨ squeeze (c :: cs) = ' ' :: squeeze cs := by
  rw [squeeze, if_pos hc]
  split
  · exact Or.inl rfl
  · exact Or.inr rfl

/-- A run of blanks leaves a space. -/
theorem exists_squeeze_cons {c : Char} (hc : isBlank c = true) (cs : List Char) :
    ∃ ds, squeeze (c :: cs) = ' ' :: ds := by
  induction cs generalizing c with
  | nil => exact ⟨[], by simp [squeeze, hc]⟩
  | cons d cs ih =>
      by_cases hd : isBlank d = true
      · obtain ⟨ds, hds⟩ := ih hd
        exact ⟨ds, by rw [squeeze, if_pos hc, if_pos (by simpa using hd), hds]⟩
      · exact ⟨squeeze (d :: cs), by rw [squeeze, if_pos hc, if_neg (by simpa using hd)]⟩

theorem eq_space_or_mem_of_mem_squeeze {cs : List Char} {c : Char} (h : c ∈ squeeze cs) :
    c = ' ' ∨ c ∈ cs := by
  induction cs with
  | nil => cases h
  | cons d cs ih =>
      by_cases hd : isBlank d = true
      · rcases squeeze_cons_of_isBlank hd cs with hsqueeze | hsqueeze
        · rw [hsqueeze] at h
          exact (ih h).imp_right (List.mem_cons_of_mem d)
        · rw [hsqueeze] at h
          rcases List.mem_cons.mp h with rfl | h
          · exact Or.inl rfl
          · exact (ih h).imp_right (List.mem_cons_of_mem d)
      · rw [Bool.not_eq_true] at hd
        rw [squeeze_cons_of_not_isBlank hd] at h
        rcases List.mem_cons.mp h with rfl | h
        · exact Or.inr (List.mem_cons_self ..)
        · exact (ih h).imp_right (List.mem_cons_of_mem d)

/-- No character but a blank is lost. -/
theorem mem_squeeze_of_not_isBlank {cs : List Char} {c : Char} (h : c ∈ cs)
    (hc : isBlank c = false) : c ∈ squeeze cs := by
  induction cs with
  | nil => cases h
  | cons d cs ih =>
      by_cases hd : isBlank d = true
      · have hcs : c ∈ cs := by
          rcases List.mem_cons.mp h with rfl | hcs
          · rw [hd] at hc
            cases hc
          · exact hcs
        rcases squeeze_cons_of_isBlank hd cs with hsqueeze | hsqueeze
        · rw [hsqueeze]
          exact ih hcs
        · rw [hsqueeze]
          exact List.mem_cons_of_mem _ (ih hcs)
      · rw [Bool.not_eq_true] at hd
        rw [squeeze_cons_of_not_isBlank hd]
        rcases List.mem_cons.mp h with rfl | hcs
        · exact List.mem_cons_self ..
        · exact List.mem_cons_of_mem _ (ih hcs)

theorem isBlank_of_mem_squeeze {cs : List Char} (h : ∀ c ∈ cs, isBlank c = true) :
    ∀ c ∈ squeeze cs, isBlank c = true := by
  intro c hc
  rcases eq_space_or_mem_of_mem_squeeze hc with rfl | hc
  · exact isBlank_space
  · exact h c hc

/-- Squeezing leaves blanks alone of nothing but blanks. -/
theorem trim_squeeze_eq_nil_iff (cs : List Char) : trim (squeeze cs) = [] ↔ trim cs = [] := by
  rw [trim_eq_nil_iff, trim_eq_nil_iff]
  constructor
  · intro h c hc
    by_contra hblank
    rw [Bool.not_eq_true] at hblank
    rw [h c (mem_squeeze_of_not_isBlank hc hblank)] at hblank
    cases hblank
  · exact isBlank_of_mem_squeeze

/-- No run of blanks goes over a character that is none. -/
theorem squeeze_append {ds : List Char} (h : ∀ c ∈ ds.head?, isBlank c = false)
    (cs : List Char) : squeeze (cs ++ ds) = squeeze cs ++ squeeze ds := by
  induction cs with
  | nil => rfl
  | cons c cs ih =>
      have hhead : (cs ++ ds).head?.any isBlank = cs.head?.any isBlank := by
        cases cs with
        | nil => cases ds <;> simp_all
        | cons d cs => rfl
      rw [List.cons_append, squeeze, squeeze, hhead, ih]
      split
      · split <;> rfl
      · rfl

/-- Where there is no blank there is nothing to squeeze. -/
theorem squeeze_append_left {cs : List Char} (h : ∀ c ∈ cs, isBlank c = false) (ds : List Char) :
    squeeze (cs ++ ds) = cs ++ squeeze ds := by
  induction cs with
  | nil => rfl
  | cons c cs ih =>
      obtain ⟨hc, hcs⟩ := List.forall_mem_cons.mp h
      rw [List.cons_append, squeeze_cons_of_not_isBlank hc, ih hcs, List.cons_append]

/-- The blanks at the ends of a text do not show when it is collapsed. -/
theorem collapse_trim (cs : List Char) : collapse (trim cs) = collapse cs := by
  obtain ⟨front, back, hfront, hback, hcs⟩ := exists_eq_append_trim cs
  obtain ⟨hhead, hlast⟩ := ends_of_trim_eq (trim_trim cs)
  by_cases htrim : trim cs = []
  · rw [htrim, collapse, collapse, (trim_squeeze_eq_nil_iff cs).mpr htrim]
    rfl
  · -- Neither end of the trimmed text is a blank, so no run goes over one of them.
    obtain ⟨inner, last, hinner⟩ : ∃ inner last, trim cs = inner ++ [last] :=
      ⟨_, _, (List.dropLast_concat_getLast htrim).symm⟩
    have hnot : isBlank last = false := hlast last (by simp [hinner])
    have hhead' : ∀ c ∈ (trim cs ++ back).head?, isBlank c = false := by
      rwa [List.head?_append_of_ne_nil _ htrim]
    have hbehind : squeeze (trim cs ++ back) = squeeze (trim cs) ++ squeeze back := by
      have hends : ∀ ds : List Char, ∀ c ∈ (last :: ds).head?, isBlank c = false := by
        simpa using hnot
      rw [hinner, List.append_assoc, List.singleton_append, squeeze_append (hends back),
        squeeze_append (hends []), squeeze_cons_of_not_isBlank hnot,
        squeeze_cons_of_not_isBlank hnot]
      simp
    have hsqueeze : squeeze cs = squeeze front ++ (squeeze (trim cs) ++ squeeze back) := by
      conv_lhs => rw [hcs, squeeze_append hhead', hbehind]
    rw [collapse, collapse, hsqueeze, trim_append_left (isBlank_of_mem_squeeze hfront),
      trim_append_right (isBlank_of_mem_squeeze hback)]

end Text

/-! ## Squeezed gaps -/

theorem agreesUntilBlank_squeeze (gap : List Char) : AgreesUntilBlank gap (Text.squeeze gap) := by
  induction gap with
  | nil => exact .same []
  | cons c gap ih =>
      by_cases hc : Text.isBlank c = true
      · obtain ⟨ds, hds⟩ := Text.exists_squeeze_cons hc gap
        rw [hds]
        exact .blank Text.isBlank_space _ _
      · rw [Bool.not_eq_true] at hc
        rw [Text.squeeze_cons_of_not_isBlank hc]
        exact .cons c ih

theorem harmless_squeeze : Harmless Text.squeeze where
  passed {gap} h c hc := by
    rcases Text.eq_space_or_mem_of_mem_squeeze hc with rfl | hc
    · exact passed_space ' ' (List.mem_singleton_self _)
    · exact h c hc
  agrees {gap} _ := agreesUntilBlank_squeeze gap

/-- Squeezing a text squeezes what is passed over between its lexemes. -/
theorem squeeze_flatMap_chars {tail : List Char} {lexemes : List Lexeme} (h : Cut tail lexemes) :
    Text.squeeze (lexemes.flatMap chars ++ tail) =
      (lexemes.map (regap Text.squeeze)).flatMap chars ++ Text.squeeze tail := by
  induction lexemes with
  | nil => rfl
  | cons lexeme rest ih =>
      have htext := (h.spells lexeme (List.mem_cons_self ..)).isBlank_eq_false
      have hne := h.text_ne_nil lexeme (List.mem_cons_self ..)
      have hhead : ∀ c ∈ (lexeme.text ++ (rest.flatMap chars ++ tail)).head?,
          Text.isBlank c = false := by
        rw [List.head?_append_of_ne_nil _ hne]
        exact fun c hc => htext c (List.mem_of_mem_head? hc)
      rw [List.flatMap_cons, List.map_cons, List.flatMap_cons, chars, chars]
      simp only [List.append_assoc]
      rw [Text.squeeze_append hhead, Text.squeeze_append_left htext, ih h.2.2.2]
      rfl

/-- A squeezed text is cut into the same lexemes. -/
theorem Scan.ofText_squeeze (cs : List Char) :
    ofText (Text.squeeze cs) = (ofText cs).regap Text.squeeze := by
  have hsqueeze := squeeze_flatMap_chars (cut_ofText cs).1
  rw [show (ofText cs).lexemes.flatMap Lexeme.chars ++ (ofText cs).trail = cs from chars_ofText cs]
    at hsqueeze
  rw [hsqueeze]
  exact ofText_regap harmless_squeeze cs

/-- A squeezed scan is that of the collapsed text with blanks at its ends. -/
theorem exists_blanks_of_collapse (cs : List Char) :
    ∃ front back : List Char, (∀ c ∈ front, Text.isBlank c = true) ∧
      (∀ c ∈ back, Text.isBlank c = true) ∧
      (Scan.ofText cs).regap Text.squeeze =
        front.foldr Scan.passOver ⟨(Scan.ofText (Text.collapse cs)).lexemes,
          (Scan.ofText (Text.collapse cs)).trail ++ back⟩ := by
  obtain ⟨front, back, hfront, hback, hcs⟩ := Text.exists_eq_append_trim (Text.squeeze cs)
  refine ⟨front, back, hfront, hback, ?_⟩
  rw [← Scan.ofText_append_blanks hfront hback, ← Scan.ofText_squeeze, Text.collapse, ← hcs]

/-- A collapsed text is cut into the same lexemes. -/
theorem map_bare_collapse (cs : List Char) :
    (Scan.ofText (Text.collapse cs)).lexemes.map bare = (Scan.ofText cs).lexemes.map bare := by
  obtain ⟨front, back, -, -, hscan⟩ := exists_blanks_of_collapse cs
  have hbare := congrArg (fun scan => scan.lexemes.map bare) hscan
  rw [map_bare_foldr_passOver] at hbare
  exact hbare.symm.trans (map_bare_regap _ _)

/-! ## Unrecognized stretches -/

/-- The texts of the unrecognized stretches of a scan. -/
def Scan.stretches (scan : Scan) : List (List Char) :=
  scan.lexemes.flatMap (fun lexeme => stretchTexts lexeme.lead) ++ stretchTexts scan.trail

theorem unrecognizedTexts_ofSource (source : String) :
    (Transcript.ofSource source).unrecognizedTexts =
      (Scan.ofText source.toList).stretches.map String.ofList :=
  map_text_ofScan 0 _ _

theorem stretchTexts_squeeze (gap : List Char) :
    stretchTexts (Text.squeeze gap) = (stretchTexts gap).map Text.collapse := by
  unfold stretchTexts
  by_cases htrim : Text.trim gap = []
  · rw [if_pos htrim, if_pos ((Text.trim_squeeze_eq_nil_iff gap).mpr htrim)]
    rfl
  · rw [if_neg htrim, List.map_singleton, Text.collapse_trim]
    exact if_neg (mt (Text.trim_squeeze_eq_nil_iff gap).mp htrim)

/-- What is unrecognized in a squeezed scan are the collapsed stretches. -/
theorem stretches_regap_squeeze (scan : Scan) :
    (scan.regap Text.squeeze).stretches = scan.stretches.map Text.collapse := by
  simp [Scan.stretches, Scan.regap, regap, List.flatMap_map, List.map_flatMap,
    stretchTexts_squeeze]

/-- A blank that is passed over is part of no stretch. -/
theorem stretches_passOver {c : Char} (hc : Text.isBlank c = true) (scan : Scan) :
    (scan.passOver c).stretches = scan.stretches := by
  have htrim : ∀ gap, stretchTexts (c :: gap) = stretchTexts gap := by
    intro gap
    have hcs : ∀ d ∈ [c], Text.isBlank d = true := by simpa using hc
    rw [stretchTexts, stretchTexts, ← Text.trim_append_left hcs gap, List.singleton_append]
  unfold Scan.passOver
  split
  · rename_i hlexemes
    simp [Scan.stretches, hlexemes, htrim]
  · rename_i lexeme rest hlexemes
    simp [Scan.stretches, hlexemes, htrim]

/-- Blanks at the ends of a text are part of no stretch either. -/
theorem stretches_append_blanks {front back : List Char}
    (hfront : ∀ c ∈ front, Text.isBlank c = true) (hback : ∀ c ∈ back, Text.isBlank c = true)
    (scan : Scan) :
    (front.foldr Scan.passOver ⟨scan.lexemes, scan.trail ++ back⟩).stretches =
      scan.stretches := by
  induction front with
  | nil => simp only [List.foldr_nil, Scan.stretches, stretchTexts, Text.trim_append_right hback]
  | cons c front ih =>
      obtain ⟨hc, hrest⟩ := List.forall_mem_cons.mp hfront
      rw [List.foldr_cons, stretches_passOver hc, ih hrest]

theorem stretches_collapse (cs : List Char) :
    (Scan.ofText (Text.collapse cs)).stretches =
      (Scan.ofText cs).stretches.map Text.collapse := by
  obtain ⟨front, back, hfront, hback, hscan⟩ := exists_blanks_of_collapse cs
  rw [← stretches_regap_squeeze, hscan, stretches_append_blanks hfront hback]

/-! ## Sentences that differ in their layout -/

/-- What two sentences have in common that differ in their layout alone. -/
structure SameUpToLayout (source source' : String) : Prop where
  tokens : (Transcript.ofSource source).tokens.map Token.sense =
    (Transcript.ofSource source').tokens.map Token.sense
  identifiers : (Transcript.ofSource source).identifiers =
    (Transcript.ofSource source').identifiers
  unrecognized : (Transcript.ofSource source).unrecognizedTexts.map Text.collapsed =
    (Transcript.ofSource source').unrecognizedTexts.map Text.collapsed
  structured (scope : Scope) : printed (analyze source scope).1.structured =
    printed (analyze source' scope).1.structured
  valid (scope : Scope) : (analyze source scope).1.isValid = (analyze source' scope).1.isValid
  defined (scope : Scope) : (analyze source scope).2 = (analyze source' scope).2

/-- Layout makes no difference: sentences that collapse to the same text say the same. -/
theorem layout_inert {source source' : String}
    (h : Text.collapsed source = Text.collapsed source') : SameUpToLayout source source' := by
  have hcollapse : Text.collapse source.toList = Text.collapse source'.toList :=
    String.ofList_inj.mp h
  have hsense : (Transcript.ofSource source).tokens.map Token.sense =
      (Transcript.ofSource source').tokens.map Token.sense := by
    refine sense_of_bare ?_
    rw [← map_bare_collapse, hcollapse, map_bare_collapse]
  have hstretches : ∀ source : String,
      (Transcript.ofSource source).unrecognizedTexts.map Text.collapsed =
        (Scan.ofText (Text.collapse source.toList)).stretches.map String.ofList := by
    intro source
    rw [unrecognizedTexts_ofSource, stretches_collapse, List.map_map, List.map_map]
    refine List.map_congr_left fun stretch _ => ?_
    simp [Text.collapsed]
  refine ⟨hsense, identifiers_of_sense hsense, ?_, fun scope => (analyze_of_sense hsense scope).1,
    fun scope => (analyze_of_sense hsense scope).2.1,
    fun scope => (analyze_of_sense hsense scope).2.2⟩
  rw [hstretches, hstretches, hcollapse]

/-- Blanks of several kinds stand around the parts of a numeral, inside of what is
unrecognized in it, and at the ends of the sentence. -/
theorem layout_inert_of_numeral :
    Text.collapsed "\n treinta  y\u00a0# \t % dos , total=\ty  " =
        Text.collapsed "treinta y # % dos , total= y" ∧
      SameUpToLayout "\n treinta  y\u00a0# \t % dos , total=\ty  "
        "treinta y # % dos , total= y" := by
  have h : Text.collapsed "\n treinta  y\u00a0# \t % dos , total=\ty  " =
      Text.collapsed "treinta y # % dos , total= y" := by
    decide +kernel
  exact ⟨h, layout_inert h⟩

end SpokenArithmetic
