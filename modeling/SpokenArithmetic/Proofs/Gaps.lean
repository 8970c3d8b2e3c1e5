import SpokenArithmetic.Proofs.Ordering
import SpokenArithmetic.Proofs.Sense
import SpokenArithmetic.Proofs.Wording

/-!
# Other characters between lexemes

What is passed over between two lexemes can be exchanged without a change to the
lexemes, as long as the first difference to what was there is a blank
(`Scan.ofText_regap`).  No match goes over a blank, so one that was not possible
before is not possible behind such a change, and none that was possible is lost:
it ended in front of the place of the change.  Blanks at the two ends of a text
can be taken away as well (`Scan.ofText_append_blanks`).

The sense of a sentence depends on its lexemes alone (`sense_of_bare`).  What is
passed over inside a compound numeral is part of the text of its token, but a
number is never promoted, and its text shows nowhere else.
-/

namespace SpokenArithmetic

open Lexeme Vocabulary

/-! ## Differences that begin with a blank -/

/-- Whether the second of two texts is the first one, or is like it up to a place
where the second one goes on with a blank. -/
inductive AgreesUntilBlank : List Char → List Char → Prop where
  | same (cs : List Char) : AgreesUntilBlank cs cs
  | blank {c : Char} (hc : Text.isBlank c = true) (cs ds : List Char) :
      AgreesUntilBlank cs (c :: ds)
  | cons (c : Char) {cs ds : List Char} (h : AgreesUntilBlank cs ds) :
      AgreesUntilBlank (c :: cs) (c :: ds)

theorem AgreesUntilBlank.append {gap gap' cs ds : List Char} (hgap : AgreesUntilBlank gap gap')
    (h : AgreesUntilBlank cs ds) : AgreesUntilBlank (gap ++ cs) (gap' ++ ds) := by
  induction hgap with
  | same gap =>
      induction gap with
      | nil => exact h
      | cons c gap ih => exact .cons c ih
  | blank hc gap gap' => exact .blank hc _ _
  | cons c _ ih => exact .cons c ih

/-- No match goes over a blank. -/
theorem endsMatch_of_isBlank {c : Char} (hc : Text.isBlank c = true) (cs : List Char) :
    EndsMatch (c :: cs) := by
  intro d hd rule hrule
  obtain rfl := Option.some.inj hd
  have hname : continuesName (Text.fold c) = false := by
    by_contra hname
    have hblank := isBlank_of_continuesName (Bool.not_eq_false _ ▸ hname)
    rw [Text.isBlank_fold, hc] at hblank
    cases hblank
  rcases rule_cases hrule with ⟨letters, hpattern⟩ | rfl | rfl
  · rw [hpattern, Pattern.endsAt, Bool.not_eq_true', List.contains_eq_mem, decide_eq_false_iff_not]
    intro hmem
    have hletters : (⟨.word letters, rule.kind⟩ : Rule) ∈ rules := by
      rwa [← hpattern]
    have hblank := (lower_of_mem_word hletters (List.mem_of_mem_tail hmem)).2
    rw [Text.isBlank_fold, hc] at hblank
    cases hblank
  · rw [Pattern.endsAt, Bool.not_eq_true', ← Bool.not_eq_true]
    intro hdigit
    rw [continuesName_of_isDigit hdigit] at hname
    cases hname
  · rw [Pattern.endsAt, hname]
    rfl

/-- A match that ends in front of what differs stays the longest. -/
theorem longest?_of_agreesUntilBlank {text cs ds : List Char} {found : Match}
    (h : longest? (text ++ cs) = some found) (hlength : found.length ≤ text.length)
    (hagrees : AgreesUntilBlank cs ds) : longest? (text ++ ds) = some found := by
  induction hagrees generalizing text with
  | same => exact h
  | blank hc cs ds => exact longest?_append h hlength (endsMatch_of_isBlank hc ds)
  | cons c _ ih =>
      rw [List.append_cons] at h ⊢
      exact ih h (by simp only [List.length_append]; omega)

/-! ## Changed gaps -/

/-- Whether a change of what is passed over opens no match and begins with a blank. -/
structure Harmless (change : List Char → List Char) : Prop where
  passed {gap : List Char} (h : Passed gap) : Passed (change gap)
  agrees {gap : List Char} (h : Passed gap) : AgreesUntilBlank gap (change gap)

/-- A lexeme with other characters in front of it. -/
def Lexeme.regap (change : List Char → List Char) (lexeme : Lexeme) : Lexeme :=
  { lexeme with lead := change lexeme.lead }

/-- A scan with other characters between its lexemes and behind them. -/
def Scan.regap (change : List Char → List Char) (scan : Scan) : Scan :=
  ⟨scan.lexemes.map (Lexeme.regap change), change scan.trail⟩

section Regap

variable {change : List Char → List Char} (hchange : Harmless change)

include hchange

theorem agreesUntilBlank_regap {tail : List Char} {lexemes : List Lexeme}
    (h : Cut tail lexemes) (htail : Passed tail) :
    AgreesUntilBlank (lexemes.flatMap chars ++ tail)
      ((lexemes.map (regap change)).flatMap chars ++ change tail) := by
  induction lexemes with
  | nil => exact hchange.agrees htail
  | cons lexeme rest ih =>
      obtain ⟨hlead, -, -, hrest⟩ := h
      simp only [List.map_cons, List.flatMap_cons, chars, List.append_assoc]
      exact (hchange.agrees hlead).append ((AgreesUntilBlank.same _).append (ih hrest))

/-- Lexemes are cut off as before where a harmless change was made between them. -/
theorem cut_regap {tail : List Char} {lexemes : List Lexeme} (h : Cut tail lexemes)
    (htail : Passed tail) : Cut (change tail) (lexemes.map (regap change)) := by
  induction lexemes with
  | nil => trivial
  | cons lexeme rest ih =>
      obtain ⟨hlead, hlongest, hnormalized, hrest⟩ := h
      refine ⟨hchange.passed hlead, ?_, hnormalized, ih hrest⟩
      exact longest?_of_agreesUntilBlank hlongest (Nat.le_refl _)
        (agreesUntilBlank_regap hchange hrest htail)

/-- A text with harmless changes between its lexemes is cut into the same lexemes. -/
theorem Scan.ofText_regap (cs : List Char) :
    ofText ((ofText cs).regap change).chars = (ofText cs).regap change := by
  obtain ⟨hcut, htrail⟩ := cut_ofText cs
  exact ofText_of_cut (cut_regap hchange hcut htrail) (hchange.passed htrail)

end Regap

/-- Blanks at the ends of a text are passed over. -/
theorem Scan.ofText_append_blanks {front back : List Char}
    (hfront : ∀ c ∈ front, Text.isBlank c = true) (hback : ∀ c ∈ back, Text.isBlank c = true)
    (cs : List Char) :
    ofText (front ++ (cs ++ back)) =
      front.foldr passOver ⟨(ofText cs).lexemes, (ofText cs).trail ++ back⟩ := by
  obtain ⟨hcut, htrail⟩ := cut_ofText cs
  have hend : EndsMatch back := by
    cases back with
    | nil => exact endsMatch_nil
    | cons c back => exact endsMatch_of_isBlank (hback c (List.mem_cons_self ..)) back
  rw [← List.append_nil (ofText cs).trail] at hcut
  have hofText := ofText_of_cut (hcut.append_tail hend)
    (passed_append.mpr ⟨htrail, passed_of_isBlank hback⟩)
  rw [← List.append_assoc, show (ofText cs).lexemes.flatMap Lexeme.chars ++ (ofText cs).trail = cs
    from chars_ofText cs] at hofText
  rw [ofText_append_of_passed (passed_of_isBlank hfront), hofText]

theorem map_bare_passOver (c : Char) (scan : Scan) :
    (scan.passOver c).lexemes.map bare = scan.lexemes.map bare := by
  unfold Scan.passOver
  split
  · rfl
  · rename_i lexeme rest hlexemes
    rw [hlexemes]
    rfl

theorem map_bare_foldr_passOver (front : List Char) (scan : Scan) :
    (front.foldr Scan.passOver scan).lexemes.map bare = scan.lexemes.map bare := by
  induction front with
  | nil => rfl
  | cons c front ih => rw [List.foldr_cons, map_bare_passOver, ih]

theorem map_bare_regap (change : List Char → List Char) (lexemes : List Lexeme) :
    (lexemes.map (regap change)).map bare = lexemes.map bare := by
  rw [List.map_map]
  rfl

/-! ## The sense of lexemes -/

/-- The token of a lexeme without its place, and without its text if it is a number. -/
def Lexeme.terse (lexeme : Lexeme) : Token where
  kind := lexeme.kind
  normalized := lexeme.normalized
  written := if lexeme.kind = .number then "" else String.ofList lexeme.text
  span := ⟨0, 0⟩

/-- A token without its place, and without its text if it is a number. -/
def Token.terse (token : Token) : Token where
  kind := token.kind
  normalized := token.normalized
  written := if token.kind = .number then "" else token.written
  span := ⟨0, 0⟩

/-- What is passed over decides about the text of a compound numeral and about
nothing else. -/
theorem map_terse_mergeCompounds (lexemes : List Lexeme) :
    (mergeCompounds (lexemes.map bare)).map terse = (mergeCompounds lexemes).map terse :=
  map_mergeCompounds_map (fun _ _ _ _ => rfl) (fun _ => rfl) fun _ _ _ _ => rfl

namespace Token

theorem map_terse_ofLexemes (start : Nat) (lexemes : List Lexeme) :
    (ofLexemes start lexemes).map terse = lexemes.map Lexeme.terse := by
  induction lexemes generalizing start with
  | nil => rfl
  | cons lexeme rest ih =>
      rw [ofLexemes, List.map_cons, ih]
      rfl

@[simp] theorem kind_terse (token : Token) : token.terse.kind = token.kind := rfl

/-- The text of a number plays no part in its promotion. -/
theorem promote_terse (previous next : Option Kind) (token : Token) :
    token.terse.promote previous next = (token.promote previous next).terse := by
  by_cases hkind : token.kind = .number
  · have hterse : token.terse.kind = .number := hkind
    rw [promote_of_number hkind, promote_of_number hterse]
  · have hwritten : token.terse.written = token.written := if_neg hkind
    unfold promote
    rw [hwritten, kind_terse, show token.terse.isKeyword = token.isKeyword from rfl]
    split
    · simp [terse, hkind]
    · rfl

theorem promoteFrom_map_terse (previous : Option Kind) (tokens : List Token) :
    promoteFrom previous (tokens.map terse) = (promoteFrom previous tokens).map terse :=
  promoteFrom_map kind_terse promote_terse previous tokens

end Token

/-- Sentences of the same lexemes, whatever is passed over between them, have the
same sense. -/
theorem sense_of_bare {source source' : String}
    (h : (Scan.ofText source.toList).lexemes.map bare =
      (Scan.ofText source'.toList).lexemes.map bare) :
    (Transcript.ofSource source).tokens.map Token.sense =
      (Transcript.ofSource source').tokens.map Token.sense := by
  have hterse : ∀ source : String, (Transcript.ofSource source).tokens.map Token.terse =
      Token.promoteFrom none ((mergeCompounds
        ((Scan.ofText source.toList).lexemes.map bare)).map Lexeme.terse) := by
    intro source
    rw [map_terse_mergeCompounds, ← Token.map_terse_ofLexemes 0, Token.promoteFrom_map_terse]
    rfl
  have hsame : (Transcript.ofSource source).tokens.map Token.terse =
      (Transcript.ofSource source').tokens.map Token.terse := by
    rw [hterse, hterse, h]
  have hsense := congrArg (List.map Token.sense) hsame
  rwa [List.map_map, List.map_map] at hsense

end SpokenArithmetic
