import SpokenArithmetic.Proofs.Resolution
import SpokenArithmetic.Proofs.Spelling
import SpokenArithmetic.Proofs.WholeWords

/-!
# Numbers and names

The number words stand in two places.  The vocabulary says which spellings are a
number, and the table says what their values are.  The two agree on every sentence
(`numbers_and_names_agree`).  A number that is not written in digits has a value in
the table, and no name is a word of the table.

This does not follow from the two lists alone.  Other rules could take the letters of
a word of the table for something else.  But once the letters of a keyword have been
cut off, it is by that keyword (`Vocabulary.longest?_of_keyword`), and neither merging
nor promotion makes a name of a number.

The two lists together say also that the forms of the sigma, which `Text.lowercase`
does not tell apart, make no difference.  Every word of the table is a keyword, and no
keyword has a sigma in it.
-/

namespace SpokenArithmetic

/-- How a number of a sentence comes by its normalized text. -/
inductive Token.Counted (source : String) (token : Token) : Prop where
  /-- Digits stay as they are written, leading zeros included. -/
  | digits (written : IsDigits token.written) (normalized : token.normalized = token.written)
  /-- A single word has the value that the table gives it. -/
  | word {value : Nat} (written : ¬ IsDigits token.written)
      (scanned : token ∈ Transcript.scanned source)
      (named : Numeral.value? token.lowered = some value) (bounded : value ≤ 100)
      (normalized : token.normalized = toString value)
  /-- A compound numeral has the sum of the two values that it is made of. -/
  | compound {front back : List Token} {tens joint units : Token} {ten unit : Nat}
      (written : ¬ IsDigits token.written)
      (scanned : Transcript.scanned source = front ++ tens :: joint :: units :: back)
      (joinable : Joinable tens joint units ten unit)
      (span : token.span = ⟨tens.span.start, units.span.stop⟩) (bounded : ten + unit ≤ 100)
      (normalized : token.normalized = toString (ten + unit))

/-! ## Words of the table -/

/-- Every word of the table is a keyword for a number. -/
theorem Vocabulary.mem_keywordRules_of_mem_words {word : String} {value : Nat}
    (h : (word, value) ∈ Numeral.words) :
    (⟨.word word.toList, .number⟩ : Rule) ∈ keywordRules := by
  have hwords : ∀ entry ∈ Numeral.words, entry.1 ∈ numberWords := by
    decide +kernel
  exact List.mem_append_right _ (List.mem_map_of_mem (hwords _ h))

/-- A word of the table is cut off as a number. -/
theorem Lexeme.Cut.kind_eq_number {tail : List Char} {lexemes : List Lexeme}
    (h : Cut tail lexemes) : ∀ lexeme ∈ lexemes, ∀ value,
      (lexeme.lowered, value) ∈ Numeral.words → lexeme.kind = .number := by
  have hspells := h.spells
  induction lexemes with
  | nil => simp
  | cons lexeme rest ih =>
      obtain ⟨-, hlongest, -, hrest⟩ := h
      obtain ⟨hfirst, hspells⟩ := List.forall_mem_cons.mp hspells
      refine List.forall_mem_cons.mpr ⟨fun value hword => ?_, ih hrest hspells⟩
      have hletters : Text.shadow lexeme.text = lexeme.lowered.toList := by
        rw [lowered, String.toList_ofList, hfirst.lowercase_eq]
      have hfound := Vocabulary.longest?_of_keyword (Vocabulary.mem_keywordRules_of_mem_words hword)
        hletters hlongest (Nat.le_refl _)
      exact congrArg Match.kind hfound

theorem Numeral.add_le_hundred {left right : String} {ten unit : Nat} (hten : (left, ten) ∈ tens)
    (hunit : (right, unit) ∈ units) : ten + unit ≤ 100 := by
  have hjoins : Joins (left ++ link ++ right) left right ten unit :=
    joins_iff.mpr ⟨rfl, hten, hunit⟩
  have hnames : Names (left ++ link ++ right) (ten + unit) := Or.inr ⟨_, _, _, _, hjoins, rfl⟩
  exact hnames.le_hundred

/-! ## The forms of the sigma

Full lowercasing gives a capital sigma another form at the end of a word.  In whatever
form its sigmas are, a text that has one is found nowhere. -/

namespace Text

/-- Whether a character is a small sigma in one of its two forms. -/
def isSigma (c : Char) : Bool :=
  c == 'σ' || c == 'ς'

/-- Whether two texts are the same but for the forms of their small sigmas. -/
def SameButSigmas (cs ds : List Char) : Prop :=
  List.Forall₂ (fun c d => c = d ∨ isSigma c = true ∧ isSigma d = true) cs ds

theorem SameButSigmas.symm {cs ds : List Char} (h : SameButSigmas cs ds) : SameButSigmas ds cs :=
  h.flip.imp fun _ _ hchar => hchar.imp Eq.symm And.symm

theorem SameButSigmas.append {cs ds cs' ds' : List Char} (h : SameButSigmas cs ds)
    (h' : SameButSigmas cs' ds') : SameButSigmas (cs ++ cs') (ds ++ ds') :=
  List.rel_append h h'

theorem SameButSigmas.refl (cs : List Char) : SameButSigmas cs cs :=
  List.forall₂_same.mpr fun _ _ => Or.inl rfl

/-- A text without sigmas is like no other text. -/
theorem SameButSigmas.eq {cs ds : List Char} (h : SameButSigmas cs ds)
    (hcs : cs.any isSigma = false) : ds = cs := by
  induction h with
  | nil => rfl
  | cons hchar _ ih =>
      rw [List.any_cons, Bool.or_eq_false_iff] at hcs
      rcases hchar with rfl | ⟨hsigma, -⟩
      · rw [ih hcs.2]
      · exact absurd (hcs.1.symm.trans hsigma) (by decide)

/-- If one of the two texts is a word without sigmas, so is the other. -/
theorem SameButSigmas.ofList_eq {cs ds : List Char} {word : String} (h : SameButSigmas cs ds)
    (hword : word.toList.any isSigma = false) (hcs : String.ofList cs = word) :
    String.ofList ds = word := by
  rw [← hcs, String.toList_ofList] at hword
  rw [h.eq hword, hcs]

/-- The two lowercase forms of a word with a sigma at its end. -/
example : SameButSigmas "πως".toList (lowercase "ΠΩΣ".toList) := by
  have hlower : lowercase "ΠΩΣ".toList = "πωσ".toList := by
    decide +kernel
  rw [hlower]
  exact .cons (Or.inl rfl) (.cons (Or.inl rfl) (.cons (Or.inr ⟨rfl, rfl⟩) .nil))

end Text

/-- The letters that a pattern asks for one by one. -/
def Pattern.letters : Pattern → List Char
  | .word letters => letters
  | .run _ _ => []

/-- There is no sigma in a keyword. -/
theorem Vocabulary.any_isSigma_of_keyword {rule : Rule} (h : rule ∈ keywordRules) :
    rule.pattern.letters.any Text.isSigma = false := by
  have hrules : ∀ rule ∈ keywordRules, rule.pattern.letters.any Text.isSigma = false := by
    decide +kernel
  exact hrules rule h

/-- There is no sigma in a numeral, since every word of the table is a keyword. -/
theorem Numeral.Names.any_isSigma {text : String} {value : Nat} (h : Names text value) :
    text.toList.any Text.isSigma = false := by
  have hwords : ∀ {word : String} {value : Nat}, (word, value) ∈ words →
      word.toList.any Text.isSigma = false := fun hword =>
    Vocabulary.any_isSigma_of_keyword (Vocabulary.mem_keywordRules_of_mem_words hword)
  rcases h with hword | ⟨left, right, ten, unit, hjoins, rfl⟩
  · exact hwords hword
  · have hlink : (" y ".toList).any Text.isSigma = false := by
      decide
    rw [hjoins.text_eq, String.toList_append, String.toList_append, List.any_append,
      List.any_append, hwords hjoins.ten_word, hlink, hwords hjoins.unit_word]
    rfl

/-- The value of a text does not depend on the forms of its sigmas. -/
theorem Numeral.value?_eq_of_sameButSigmas {cs ds : List Char} (h : Text.SameButSigmas cs ds) :
    value? (String.ofList cs) = value? (String.ofList ds) := by
  have hfound : ∀ {cs ds : List Char}, Text.SameButSigmas cs ds → ∀ value,
      value? (String.ofList cs) = some value → value? (String.ofList ds) = some value := by
    intro cs ds h value hvalue
    have hsigma := (value?_eq_some_iff.mp hvalue).any_isSigma
    rw [h.ofList_eq hsigma rfl, hvalue]
  exact Option.ext fun value => ⟨hfound h value, hfound h.symm value⟩

section Lowercasing

-- A lowercasing that can choose the forms of its sigmas.
variable {small : List Char → List Char}
  (hsmall : ∀ cs, Text.SameButSigmas (small cs) (Text.lowercase cs))

include hsmall

/-- A numeral is normalized in the same way with any such lowercasing. -/
theorem Numeral.normalize_eq_of_sigmas (text : String) :
    normalize text =
      ((value? (String.ofList (small (Text.trim text.toList)))).map toString).getD text := by
  rw [normalize_eq, plain, value?_eq_of_sameButSigmas (hsmall _)]

/-- Compound numerals are found in the same way with any such lowercasing. -/
theorem Lexeme.compoundValue?_eq_of_sigmas (tens joint units : Lexeme) :
    compoundValue? tens joint units =
      if tens.kind = .number ∧ joint.kind = .sequence ∧
          String.ofList (small joint.text) = "y" ∧ units.kind = .number then
        Numeral.value? (String.ofList (small tens.text) ++ Numeral.link ++
          String.ofList (small units.text))
      else
        none := by
  have hy : "y".toList.any Text.isSigma = false := by
    decide
  have hjoint : String.ofList (small joint.text) = "y" ↔ joint.lowered = "y" :=
    ⟨(hsmall joint.text).ofList_eq hy, (hsmall joint.text).symm.ofList_eq hy⟩
  have hjoined : Numeral.value? (String.ofList (small tens.text) ++ Numeral.link ++
        String.ofList (small units.text)) =
      Numeral.value? (tens.lowered ++ Numeral.link ++ units.lowered) := by
    have h := Numeral.value?_eq_of_sameButSigmas
      (((hsmall tens.text).append (Text.SameButSigmas.refl Numeral.link.toList)).append
        (hsmall units.text))
    simpa only [lowered, String.ofList_append, String.ofList_toList] using h
  rw [compoundValue?, hjoined]
  simp only [hjoint]

end Lowercasing

/-- Nothing is trimmed off the text of a lexeme. -/
theorem Spells.plain_eq {kind : Kind} {text : List Char} (h : Spells kind text) :
    Numeral.plain (String.ofList text) = String.ofList (Text.lowercase text) := by
  rw [Numeral.plain, String.toList_ofList, h.trim_eq]

/-- A word of the table, in any case, is by itself a number of its value. -/
theorem Transcript.tokens_of_mem_words {word written : String} {value : Nat}
    (h : (word, value) ∈ Numeral.words) (hletters : Text.shadow written.toList = word.toList) :
    (ofSource written).tokens =
      [⟨.number, toString value, written, ⟨0, written.utf8ByteSize⟩⟩] := by
  have hrule := Vocabulary.mem_keywordRules_of_mem_words h
  have hspells : Spells .number written.toList :=
    .word (Vocabulary.mem_rules_of_mem_keywordRules hrule) hletters
  have hplain : Numeral.plain written = word := by
    rw [← @String.ofList_toList written, hspells.plain_eq, hspells.lowercase_eq, hletters,
      String.ofList_toList]
  have hnormalized : Numeral.normalize written = toString value :=
    Numeral.normalize_of_names (Or.inl (hplain ▸ h))
  have hscan : Scan.ofText written.toList = ⟨[Lexeme.ofMatch .number written.toList], []⟩ := by
    rw [Scan.ofText_of_longest? (Vocabulary.longest?_of_shadow_eq hrule hletters)]
    simp [Scan.cons]
  have hmerged : Token.ofLexemes 0 (Lexeme.mergeCompounds (Scan.ofText written.toList).lexemes) =
      [⟨.number, toString value, written, ⟨0, written.utf8ByteSize⟩⟩] := by
    simp [hscan, Lexeme.mergeCompounds, Token.ofLexemes, Lexeme.ofMatch, Kind.canonical,
      hnormalized, Text.width_toList]
  show Token.promoteFrom none _ = _
  rw [hmerged, Token.promoteFrom, Token.promote_of_number rfl, Token.promoteFrom]

namespace Token

variable {source : String} {token : Token}

/-! ## Behind the scan -/

theorem plain_written (h : token ∈ Transcript.scanned source) :
    Numeral.plain token.written = token.lowered := by
  obtain ⟨lexeme, hmem, -, -, hwritten⟩ := exists_of_mem_ofLexemes h
  have hspells := (Scan.cut_ofText source.toList).1.spells lexeme hmem
  rw [lowered, hwritten, hspells.plain_eq, String.toList_ofList]

/-- A number that has been scanned is written in digits or is a word of the table. -/
theorem counted_of_mem_scanned (h : token ∈ Transcript.scanned source)
    (hkind : token.kind = .number) : token.Counted source := by
  have hplain := plain_written h
  obtain ⟨lexeme, hmem, hkind', hnormalized, hwritten⟩ := exists_of_mem_ofLexemes h
  have hcut := (Scan.cut_ofText source.toList).1
  have hspells := hcut.spells lexeme hmem
  rw [hcut.normalized_eq lexeme hmem, ← hkind', hkind, ← hwritten, Kind.canonical] at hnormalized
  rw [← hkind', hkind] at hspells
  rcases hspells.number_cases with ⟨value, hvalue⟩ | hdigits
  · have hnames : Numeral.Names token.lowered value := by
      refine Or.inl (Numeral.wordValue?_eq_some_iff.mp ?_)
      rw [lowered, hwritten, String.toList_ofList, hspells.lowercase_eq]
      exact hvalue
    have hletters : ¬ IsDigits token.written := by
      intro hdigits
      rw [← hplain, Numeral.plain_of_isDigits hdigits] at hnames
      exact Numeral.not_names_of_isDigits hdigits value hnames
    refine .word hletters h (Numeral.value?_eq_some_iff.mpr hnames) hnames.le_hundred ?_
    exact hnormalized.trans (Numeral.normalize_of_names (hplain ▸ hnames))
  · have hdigits : IsDigits token.written := by
      rwa [IsDigits, hwritten, String.toList_ofList]
    exact .digits hdigits (hnormalized.trans (Numeral.normalize_of_isDigits hdigits))

/-! ## Behind merging -/

/-- A token behind merging was there before, or it is the numeral of three that were, and
has the joint between them in it. -/
theorem mem_or_compoundOf_of_mem_mergeCompounds {lexemes : List Lexeme} {start : Nat}
    (h : token ∈ ofLexemes start (Lexeme.mergeCompounds lexemes)) :
    token ∈ ofLexemes start lexemes ∨
      token.CompoundOf (ofLexemes start lexemes) ∧ 'y' ∈ token.lowered.toList := by
  induction lexemes using Lexeme.mergeCompounds.induct generalizing start with
  | case1 tens joint units rest value hvalue ih =>
      have hmerged : Lexeme.mergeCompounds (tens :: joint :: units :: rest) =
          [Lexeme.compound tens joint units value] ++ Lexeme.mergeCompounds rest := by
        simp [Lexeme.mergeCompounds, hvalue]
      have hthree : tens :: joint :: units :: rest = [tens, joint, units] ++ rest := rfl
      have hwidth : Text.width ([Lexeme.compound tens joint units value].flatMap Lexeme.chars) =
          Text.width ([tens, joint, units].flatMap Lexeme.chars) := by
        simp
      rw [hmerged, ofLexemes_append, hwidth] at h
      rw [hthree, ofLexemes_append]
      rcases List.mem_append.mp h with hfirst | hrest
      · right
        rw [List.mem_singleton.mp hfirst]
        constructor
        · refine ⟨[], _, _, _, _, value, rfl, ?_, rfl, rfl, ?_⟩
          · exact (compoundValue?_mk tens joint units _ _ _).trans hvalue
          · simp only [Lexeme.compound, Lexeme.chars, Text.width_append, ← Nat.add_assoc]
        · rw [lowered_mk]
          exact Lexeme.mem_lowered_compound hvalue
      · rcases ih hrest with hmem | ⟨hcompound, hjoint⟩
        · exact Or.inl (List.mem_append_right _ hmem)
        · exact Or.inr ⟨hcompound.append_left _, hjoint⟩
  | case2 tens joint units rest hvalue ih =>
      simp only [Lexeme.mergeCompounds, hvalue] at h
      rcases List.mem_cons.mp h with hfirst | hrest
      · exact Or.inl (List.mem_cons.mpr (Or.inl hfirst))
      · rcases ih hrest with hmem | ⟨hcompound, hjoint⟩
        · exact Or.inl (List.mem_cons_of_mem _ hmem)
        · exact Or.inr ⟨hcompound.append_left [_], hjoint⟩
  | case3 few hfew =>
      rw [Lexeme.mergeCompounds] at h
      · exact Or.inl h
      · exact hfew

/-- What has a `y` in it is not written in digits. -/
theorem not_isDigits_of_mem_lowered (h : 'y' ∈ token.lowered.toList) :
    ¬ IsDigits token.written := by
  intro hdigits
  rw [lowered, String.toList_ofList,
    Text.lowercase_eq_self fun c hc => Text.lower_of_isDigit (hdigits.2 c hc)] at h
  exact absurd (hdigits.2 'y' h) (by decide)

theorem CompoundOf.counted (h : token.CompoundOf (Transcript.scanned source))
    (hjoint : 'y' ∈ token.lowered.toList) : token.Counted source := by
  obtain ⟨front, tens, joint, units, back, value, hscanned, hvalue, -, hnormalized, hspan⟩ := h
  obtain ⟨ten, unit, hjoinable, rfl⟩ := compoundValue?_eq_some_iff.mp hvalue
  exact .compound (not_isDigits_of_mem_lowered hjoint) hscanned hjoinable hspan
    (Numeral.add_le_hundred hjoinable.ten_word hjoinable.unit_word) hnormalized

/-! ## Behind promotion -/

/-- Whether the table has the value of a token that is a number, and no other token. -/
structure Tabled (source : String) (token : Token) : Prop where
  counted : token.kind = .number → token.Counted source
  number : ∀ value, (token.lowered, value) ∈ Numeral.words → token.kind = .number

theorem tabled_of_mem_scanned (h : token ∈ Transcript.scanned source) : token.Tabled source where
  counted := counted_of_mem_scanned h
  number := by
    obtain ⟨lexeme, hmem, hkind, -, hwritten⟩ := exists_of_mem_ofLexemes h
    have hlowered : token.lowered = lexeme.lowered := by
      rw [lowered, hwritten, String.toList_ofList, Lexeme.lowered]
    rw [hkind, hlowered]
    exact (Scan.cut_ofText source.toList).1.kind_eq_number lexeme hmem

theorem tabled_of_mem_merged
    (h : token ∈ ofLexemes 0 (Lexeme.mergeCompounds (Scan.ofText source.toList).lexemes)) :
    token.Tabled source := by
  rcases mem_or_compoundOf_of_mem_mergeCompounds h with hscanned | ⟨hcompound, hjoint⟩
  · exact tabled_of_mem_scanned hscanned
  · exact ⟨fun _ => hcompound.counted hjoint, fun _ _ => hcompound.kind_eq⟩

/-- A keyword that becomes a name has been no word of the table, and keeps its letters. -/
theorem Tabled.promote (h : token.Tabled source) (previous next : Option Kind) :
    (token.promote previous next).Tabled source := by
  by_cases hnumber : token.kind = .number
  · rwa [promote_of_number hnumber]
  · constructor
    · intro hpromoted
      rcases kind_promote previous next token with hkind | hkind
      · exact absurd (hkind.symm.trans hpromoted) hnumber
      · rw [hkind] at hpromoted
        cases hpromoted
    · intro value hword
      rw [lowered, written_promote] at hword
      exact absurd (h.number value hword) hnumber

theorem tabled_of_mem_ofSource (h : token ∈ (Transcript.ofSource source).tokens) :
    token.Tabled source :=
  forall_promoteFrom Tabled.promote (fun _ => tabled_of_mem_merged) none token h

/-- A number of a sentence is its own digits or has a value in the table. -/
theorem counted_of_mem_ofSource (h : token ∈ (Transcript.ofSource source).tokens)
    (hkind : token.kind = .number) : IsDigits token.normalized ∧ token.Counted source := by
  have hspelled := Transcript.wellSpelled_ofSource source token h
  rw [hkind] at hspelled
  exact ⟨hspelled, (tabled_of_mem_ofSource h).counted hkind⟩

/-- A name of a sentence is as it was written and no word of the table. -/
theorem name_of_mem_ofSource (h : token ∈ (Transcript.ofSource source).tokens)
    (hkind : token.kind = .identifier) :
    token.normalized = token.written ∧ isName token.written.toList = true ∧
      ∀ value, (token.lowered, value) ∉ Numeral.words := by
  have hverbatim := Transcript.verbatim_ofSource source token h hkind
  have hspelled := Transcript.wellSpelled_ofSource source token h
  rw [hkind, hverbatim] at hspelled
  refine ⟨hverbatim, hspelled, fun value hword => ?_⟩
  have hnumber := (tabled_of_mem_ofSource h).number value hword
  rw [hkind] at hnumber
  cases hnumber

end Token

/-- Each number of a sentence is its own digits or has a value in the table, and each name
is as it was written and no word of the table, in whatever case it is.  Each word of the
table is by itself a number of its value. -/
theorem numbers_and_names_agree :
    (∀ source, ∀ token ∈ (Transcript.ofSource source).tokens,
      (token.kind = .number → IsDigits token.normalized ∧ token.Counted source) ∧
        (token.kind = .identifier →
          token.normalized = token.written ∧ isName token.written.toList = true ∧
            ∀ value, (token.lowered, value) ∉ Numeral.words)) ∧
    ∀ word value, (word, value) ∈ Numeral.words →
      ∀ written : String, Text.shadow written.toList = word.toList →
        (Transcript.ofSource written).tokens =
          [⟨.number, toString value, written, ⟨0, written.utf8ByteSize⟩⟩] := by
  constructor
  · intro source token htoken
    exact ⟨Token.counted_of_mem_ofSource htoken, Token.name_of_mem_ofSource htoken⟩
  · intro word value hword written hletters
    exact Transcript.tokens_of_mem_words hword hletters

/-- A word in capitals with an accent, a compound numeral with what no rule knows in it, and
a connector that is a name. -/
theorem numbers_and_names_agree_of_mixed_case :
    (⟨.number, "22", "VEINTIDÓS", ⟨4, 14⟩⟩ : Token).Counted "Y = VEINTIDÓS treinta # y Dos" ∧
      (⟨.number, "32", "treinta # y Dos", ⟨15, 30⟩⟩ : Token).Counted
        "Y = VEINTIDÓS treinta # y Dos" ∧
      isName "Y".toList = true ∧
      (∀ value, ((⟨.identifier, "Y", "Y", ⟨0, 1⟩⟩ : Token).lowered, value) ∉ Numeral.words) ∧
      (Transcript.ofSource "SeTeNTa").tokens = [⟨.number, "70", "SeTeNTa", ⟨0, 7⟩⟩] := by
  have htokens : ∀ token ∈ [⟨.number, "22", "VEINTIDÓS", ⟨4, 14⟩⟩,
      ⟨.number, "32", "treinta # y Dos", ⟨15, 30⟩⟩, (⟨.identifier, "Y", "Y", ⟨0, 1⟩⟩ : Token)],
      token ∈ (Transcript.ofSource "Y = VEINTIDÓS treinta # y Dos").tokens := by
    decide +kernel
  simp only [List.forall_mem_cons] at htokens
  obtain ⟨hword, hcompound, hname, -⟩ := htokens
  obtain ⟨hagree, halone⟩ := numbers_and_names_agree
  obtain ⟨-, hspelled, hother⟩ := (hagree _ _ hname).2 rfl
  exact ⟨((hagree _ _ hword).1 rfl).2, ((hagree _ _ hcompound).1 rfl).2, hspelled, hother,
    halone "setenta" 70 (by decide +kernel) "SeTeNTa" (by decide +kernel)⟩

end SpokenArithmetic
