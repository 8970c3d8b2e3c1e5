import SpokenArithmetic.Proofs.Slicing
import SpokenArithmetic.Proofs.Wording

/-!
# Case

Sentences that fold to the same small letters have the same tokens, but for the
letters of the names in them (`letter_case_inert`).  Folding moves nothing,
since a character is only exchanged for one of the same width, so the places are the
same, too.  The scan looks at the small letters alone.  The lookup of a numeral does
not, but on the words of the vocabulary both ways to small letters agree, and digits
have no case.  Promotion looks at the letters as they were written, but whether they
are a name shows in any case.
-/

namespace SpokenArithmetic

open Lexeme Vocabulary

/-- A sentence in small letters, each at the place of the character that it comes
from. -/
def Text.folded (source : String) : String :=
  String.ofList (shadow source.toList)

/-! ## Places in a folded sentence -/

namespace Text

/-- The places between two characters of a sentence, by what is in front of them. -/
theorem isValid_iff (source : String) (position : String.Pos.Raw) :
    position.IsValid source ↔
      ∃ front back, source.toList = front ++ back ∧ position = ⟨width front⟩ := by
  rw [String.Pos.Raw.isValid_iff_exists_append]
  constructor
  · rintro ⟨front, back, rfl, rfl⟩
    exact ⟨front.toList, back.toList, by simp, by rw [width_toList]; rfl⟩
  · rintro ⟨front, back, hsource, rfl⟩
    refine ⟨String.ofList front, String.ofList back, ?_, ?_⟩
    · rw [← String.ofList_append, ← hsource, String.ofList_toList]
    · rw [← utf8ByteSize_ofList]
      rfl

theorem utf8ByteSize_folded (source : String) :
    (folded source).utf8ByteSize = source.utf8ByteSize := by
  rw [folded, utf8ByteSize_ofList, width_shadow, width_toList]

/-- A folded sentence has its characters where the sentence has them. -/
theorem isValid_folded_iff (source : String) (position : String.Pos.Raw) :
    position.IsValid (folded source) ↔ position.IsValid source := by
  rw [isValid_iff, isValid_iff, folded, String.toList_ofList]
  constructor
  · rintro ⟨front, back, hsource, rfl⟩
    obtain ⟨front, back, hsplit, rfl, rfl⟩ := List.map_eq_append_iff.mp hsource
    exact ⟨front, back, hsplit, congrArg String.Pos.Raw.mk (width_shadow front)⟩
  · rintro ⟨front, back, hsource, rfl⟩
    exact ⟨shadow front, shadow back, by rw [hsource, shadow_append], by rw [width_shadow]⟩

theorem takeWhile_isBlank_shadow (cs : List Char) :
    (shadow cs).takeWhile isBlank = shadow (cs.takeWhile isBlank) := by
  rw [shadow, List.takeWhile_map]
  simp only [Function.comp_def, isBlank_fold]
  rfl

theorem dropWhile_isBlank_shadow (cs : List Char) :
    (shadow cs).dropWhile isBlank = shadow (cs.dropWhile isBlank) := by
  rw [shadow, List.dropWhile_map]
  simp only [Function.comp_def, isBlank_fold]
  rfl

/-- A folded text is trimmed at the same places. -/
theorem trim_shadow (cs : List Char) : trim (shadow cs) = shadow (trim cs) := by
  have hreverse : ∀ ds : List Char, (shadow ds).reverse = shadow ds.reverse :=
    fun ds => List.map_reverse.symm
  rw [trim, trim, trimStart, dropWhile_isBlank_shadow, trimEnd, hreverse, dropWhile_isBlank_shadow,
    hreverse]
  rfl

end Text

/-! ## Folded scans -/

/-- A lexeme in small letters, without the normalized text if it is a name. -/
def Lexeme.folded (lexeme : Lexeme) : Lexeme where
  lead := Text.shadow lexeme.lead
  text := Text.shadow lexeme.text
  kind := lexeme.kind
  normalized := if lexeme.kind = .identifier then "" else lexeme.normalized

namespace Scan

/-- A scan in small letters. -/
def folded (scan : Scan) : Scan :=
  ⟨scan.lexemes.map Lexeme.folded, Text.shadow scan.trail⟩

theorem folded_cons (lexeme : Lexeme) (scan : Scan) :
    (cons lexeme scan).folded = cons lexeme.folded scan.folded := rfl

theorem folded_passOver (c : Char) (scan : Scan) :
    (scan.passOver c).folded = scan.folded.passOver (Text.fold c) := by
  obtain ⟨lexemes, trail⟩ := scan
  cases lexemes <;> rfl

end Scan

/-- Nothing but the small letters decides what matches. -/
theorem Vocabulary.longest?_congr {cs ds : List Char} (h : Text.shadow cs = Text.shadow ds) :
    longest? cs = longest? ds := by
  rw [← plainLongest?_shadow, h, plainLongest?_shadow]

/-- The case of a match shows in what it normalizes to only if it is a name. -/
theorem folded_ofMatch {kind : Kind} {text text' : List Char} (h : Spells kind text)
    (h' : Spells kind text') (hshadow : Text.shadow text = Text.shadow text') :
    (ofMatch kind text).folded = (ofMatch kind text').folded := by
  have hnormalized : kind ≠ .identifier →
      kind.canonical (String.ofList text) = kind.canonical (String.ofList text') := by
    intro hkind
    cases kind with
    | number =>
        simp only [Kind.canonical]
        rw [← h.normalize_shadow, hshadow, h'.normalize_shadow]
    | identifier => exact absurd rfl hkind
    | operator op | sequence | preposition | comma | assign => rfl
  unfold Lexeme.folded ofMatch
  by_cases hkind : kind = .identifier
  · simp [hkind, hshadow]
  · simp [hkind, hshadow, hnormalized hkind]

/-- Texts with the same small letters are cut at the same places. -/
theorem Scan.folded_ofText {cs ds : List Char} (h : Text.shadow cs = Text.shadow ds) :
    (ofText cs).folded = (ofText ds).folded := by
  induction cs using ofText.induct generalizing ds with
  | case1 =>
      obtain rfl := List.map_eq_nil_iff.mp h.symm
      rfl
  | case2 c rest found hfound ih =>
      have hfound' := (longest?_congr h).symm.trans hfound
      have htake : Text.shadow ((c :: rest).take found.length) =
          Text.shadow (ds.take found.length) := by
        rw [Text.shadow, Text.shadow, List.map_take, List.map_take]
        exact congrArg (List.take found.length) h
      have hdrop : Text.shadow ((c :: rest).drop found.length) =
          Text.shadow (ds.drop found.length) := by
        rw [Text.shadow, Text.shadow, List.map_drop, List.map_drop]
        exact congrArg (List.drop found.length) h
      rw [ofText_of_longest? hfound, ofText_of_longest? hfound', folded_cons, folded_cons, ih hdrop,
        folded_ofMatch (spells_of_longest? hfound) (spells_of_longest? hfound') htake]
  | case3 c rest hnone ih =>
      cases ds with
      | nil => cases h
      | cons d ds =>
          obtain ⟨hfold, hrest⟩ := List.cons.inj h
          have hnone' := (longest?_congr h).symm.trans hnone
          rw [ofText_cons_of_longest? hnone, ofText_cons_of_longest? hnone', folded_passOver,
            folded_passOver, hfold, ih hrest]

/-! ## Folded numerals -/

/-- In small letters a lexeme is looked up as it is. -/
theorem lowered_folded {lexeme : Lexeme} (h : Spells lexeme.kind lexeme.text) :
    lexeme.folded.lowered = lexeme.lowered := by
  have hlower : Text.lowercase (Text.shadow lexeme.text) = Text.lowercase lexeme.text := by
    rw [h.lowercase_eq, Text.lowercase_eq_self h.lower_of_mem_shadow]
  rw [lowered, lowered, ← hlower]
  rfl

/-- The case of three lexemes does not decide whether they are a numeral. -/
theorem compoundValue?_folded {tens joint units : Lexeme} (htens : Spells tens.kind tens.text)
    (hjoint : Spells joint.kind joint.text) (hunits : Spells units.kind units.text) :
    compoundValue? tens.folded joint.folded units.folded = compoundValue? tens joint units := by
  unfold compoundValue?
  rw [show tens.folded.kind = tens.kind from rfl, show joint.folded.kind = joint.kind from rfl,
    show units.folded.kind = units.kind from rfl]
  rw [lowered_folded htens, lowered_folded hjoint, lowered_folded hunits]

theorem folded_compound (tens joint units : Lexeme) (value : Nat) :
    (compound tens joint units value).folded =
      compound tens.folded joint.folded units.folded value := by
  simp [compound, Lexeme.folded, chars, Text.shadow_append]

/-- Compound numerals are the same in any case. -/
theorem mergeCompounds_map_folded {lexemes : List Lexeme}
    (h : ∀ lexeme ∈ lexemes, Spells lexeme.kind lexeme.text) :
    mergeCompounds (lexemes.map Lexeme.folded) = (mergeCompounds lexemes).map Lexeme.folded := by
  have hvalue : ∀ tens joint units, [tens, joint, units] ⊆ lexemes →
      compoundValue? tens.folded joint.folded units.folded = compoundValue? tens joint units :=
    fun tens joint units hmem => compoundValue?_folded (h tens (hmem (by simp)))
      (h joint (hmem (by simp))) (h units (hmem (by simp)))
  have hmap : (mergeCompounds (lexemes.map Lexeme.folded)).map id =
      (mergeCompounds lexemes).map Lexeme.folded :=
    map_mergeCompounds_map hvalue (fun _ => rfl) fun tens joint units value =>
      (folded_compound tens joint units value).symm
  rwa [List.map_id] at hmap

/-! ## Folded tokens -/

namespace Token

/-- A token in small letters, without the normalized text if it is a name. -/
def folded (token : Token) : Token where
  kind := token.kind
  normalized := if token.kind = .identifier then "" else token.normalized
  written := Text.folded token.written
  span := token.span

/-- What the case of a sentence does not decide of a token. -/
def caseless (token : Token) : Kind × Span × Option String :=
  (token.kind, token.span, if token.kind = .identifier then none else some token.normalized)

theorem ofLexemes_map_folded (start : Nat) (lexemes : List Lexeme) :
    ofLexemes start (lexemes.map Lexeme.folded) = (ofLexemes start lexemes).map folded := by
  induction lexemes generalizing start with
  | nil => rfl
  | cons lexeme rest ih =>
      simp only [List.map_cons, ofLexemes, Lexeme.folded, Text.width_shadow, folded, Text.folded,
        String.toList_ofList]
      rw [← ih]

@[simp] theorem kind_folded (token : Token) : token.folded.kind = token.kind := rfl

/-- A keyword is promoted in any case of its letters. -/
theorem caseless_promote_folded (previous next : Option Kind) (token : Token) :
    (token.folded.promote previous next).caseless = (token.promote previous next).caseless := by
  have hname : isName token.folded.written.toList = isName token.written.toList := by
    rw [show token.folded.written = Text.folded token.written from rfl, Text.folded,
      String.toList_ofList, isName_shadow]
  unfold promote
  rw [hname, kind_folded, show token.folded.isKeyword = token.isKeyword from rfl]
  split
  · rfl
  · by_cases hkind : token.kind = .identifier <;> simp [caseless, folded, hkind]

theorem map_caseless_promoteFrom (previous : Option Kind) (tokens : List Token) :
    (promoteFrom previous (tokens.map folded)).map caseless =
      (promoteFrom previous tokens).map caseless := by
  have hpromoted (previous next : Option Kind) (token : Token) :
      (token.folded.promote previous next).kind = (token.promote previous next).kind :=
    congrArg Prod.fst (caseless_promote_folded previous next token)
  exact map_promoteFrom_map kind_folded hpromoted caseless_promote_folded previous tokens

end Token

/-! ## Unrecognized stretches in small letters -/

namespace Unrecognized

theorem map_span_ofGap_shadow (start : Nat) (gap : List Char) :
    (ofGap start (Text.shadow gap)).map (·.span) = (ofGap start gap).map (·.span) := by
  unfold ofGap
  have hempty : (Text.shadow (Text.trim gap)).isEmpty = (Text.trim gap).isEmpty :=
    List.isEmpty_map
  simp only [Text.trim_shadow, Text.takeWhile_isBlank_shadow, Text.width_shadow, hempty]
  split <;> rfl

theorem map_span_ofScan_folded (start : Nat) (lexemes : List Lexeme) (trail : List Char) :
    (ofScan start (lexemes.map Lexeme.folded) (Text.shadow trail)).map (·.span) =
      (ofScan start lexemes trail).map (·.span) := by
  induction lexemes generalizing start with
  | nil => exact map_span_ofGap_shadow start trail
  | cons lexeme rest ih =>
      have hwidth : Text.width lexeme.folded.chars = Text.width lexeme.chars := by
        simp [chars, Lexeme.folded]
      rw [List.map_cons, ofScan, ofScan, List.map_append, List.map_append, hwidth, ih,
        show lexeme.folded.lead = Text.shadow lexeme.lead from rfl, map_span_ofGap_shadow]

end Unrecognized

/-! ## Sentences that differ in case -/

/-- What two sentences have in common that differ in the case of their letters
alone. -/
structure SameUpToCase (source source' : String) : Prop where
  tokens : (Transcript.ofSource source).tokens.map Token.caseless =
    (Transcript.ofSource source').tokens.map Token.caseless
  unrecognized : (Transcript.ofSource source).unrecognized.map (·.span) =
    (Transcript.ofSource source').unrecognized.map (·.span)

theorem map_caseless_ofSource (source : String) :
    (Transcript.ofSource source).tokens.map Token.caseless =
      (Token.promoteFrom none (Token.ofLexemes 0
        (mergeCompounds (Scan.ofText source.toList).folded.lexemes))).map Token.caseless := by
  have hspells := (Scan.cut_ofText source.toList).1.spells
  rw [Scan.folded, mergeCompounds_map_folded hspells, Token.ofLexemes_map_folded,
    Token.map_caseless_promoteFrom]
  rfl

theorem map_span_unrecognized (source : String) :
    (Transcript.ofSource source).unrecognized.map (·.span) =
      (Unrecognized.ofScan 0 (Scan.ofText source.toList).folded.lexemes
        (Scan.ofText source.toList).folded.trail).map (·.span) :=
  (Unrecognized.map_span_ofScan_folded 0 _ _).symm

theorem sameUpToCase_of_folded_eq {source source' : String}
    (h : Text.folded source = Text.folded source') : SameUpToCase source source' := by
  have hscan := Scan.folded_ofText (String.ofList_inj.mp h)
  refine ⟨?_, ?_⟩
  · rw [map_caseless_ofSource, map_caseless_ofSource, hscan]
  · rw [map_span_unrecognized, map_span_unrecognized, hscan]

/-- Folding a sentence moves none of its characters, and sentences that fold to the
same small letters have the same tokens at the same places but for their names. -/
theorem letter_case_inert :
    (∀ source : String, (Text.folded source).utf8ByteSize = source.utf8ByteSize ∧
      ∀ position : String.Pos.Raw,
        position.IsValid (Text.folded source) ↔ position.IsValid source) ∧
    ∀ source source' : String, Text.folded source = Text.folded source' →
      SameUpToCase source source' :=
  ⟨fun source => ⟨Text.utf8ByteSize_folded source, Text.isValid_folded_iff source⟩,
    fun _ _ => sameUpToCase_of_folded_eq⟩

/-- The keyword at the end is promoted in either case, the numeral is a compound, and
the capital I with a dot is no letter that folds. -/
theorem letter_case_inert_of_sentence :
    Text.folded "Total = RAÍZ de Treinta Y dos, ¿İ? SUMA" =
        Text.folded "tOTAL = raíz DE tREINTA y DOS, ¿İ? suma" ∧
      SameUpToCase "Total = RAÍZ de Treinta Y dos, ¿İ? SUMA"
        "tOTAL = raíz DE tREINTA y DOS, ¿İ? suma" := by
  have h : Text.folded "Total = RAÍZ de Treinta Y dos, ¿İ? SUMA" =
      Text.folded "tOTAL = raíz DE tREINTA y DOS, ¿İ? suma" := by
    decide +kernel
  exact ⟨h, letter_case_inert.2 _ _ h⟩

end SpokenArithmetic
