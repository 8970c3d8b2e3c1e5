import SpokenArithmetic.Proofs.Cutting
import SpokenArithmetic.Transcript

/-!
# How tokens are spelled

Each lexeme is spelled in one of three ways: in the small letters of a word of the
vocabulary, as a run of digits, or as a name (`spells_of_longest?`).  From this it
follows what the normalized texts of a transcript look like.  A number is a run of
digits and a name is a name (`Transcript.wellSpelled_ofSource`), so that neither of
them holds a blank, a bracket or a sign.

The small letters of a word are found in two ways, character by character in the
scan and all at once where numerals are looked up.  On the texts of lexemes the two
agree (`Spells.lowercase_eq`), since the letters of all words of the vocabulary are
small letters by themselves (`lower_of_fold`), and so are those of names.
-/

namespace SpokenArithmetic

/-! ## Blanks and digits in small letters -/

namespace Text

/-- A small letter that a character folds to is its lowercase form, too. -/
theorem lower_of_fold {c small : Char} (hfold : fold c = small) (hsmall : lower small = [small]) :
    lower c = [small] := by
  unfold fold at hfold
  split at hfold
  · rename_i form hform
    split at hfold
    · rw [hform, hfold]
    · rw [hfold, hsmall]
  · rw [hfold, hsmall]

theorem lowercase_eq_self {cs : List Char} (h : ∀ c ∈ cs, lower c = [c]) : lowercase cs = cs := by
  induction cs with
  | nil => rfl
  | cons c rest ih =>
      obtain ⟨hc, hrest⟩ := List.forall_mem_cons.mp h
      rw [lowercase_cons, ih hrest, hc]
      rfl

/-- A text that folds to small letters is brought to them in either way. -/
theorem lowercase_eq_shadow {cs : List Char} (h : ∀ c ∈ shadow cs, lower c = [c]) :
    lowercase cs = shadow cs := by
  induction cs with
  | nil => rfl
  | cons c rest ih =>
      obtain ⟨hc, hrest⟩ := List.forall_mem_cons.mp h
      rw [lowercase_cons, ih hrest, lower_of_fold rfl hc]
      rfl

/-- What is checked for each code of ASCII holds of its characters. -/
theorem forall_ascii {P : Char → Prop} (h : ∀ code < 128, P (Char.ofNat code)) {c : Char}
    (hc : c.toNat < 128) : P c := by
  have hcode := h c.toNat hc
  rwa [Char.ofNat_toNat] at hcode

theorem toNat_lt_of_isDigit {c : Char} (h : c.isDigit = true) : c.toNat < 128 :=
  toNat_lt_of_continuesName (by simp [continuesName, Char.isAlphanum, h])

theorem fold_of_isDigit {c : Char} (h : (fold c).isDigit = true) : fold c = c := by
  have hascii : ∀ code < 128, (fold (Char.ofNat code)).isDigit = true →
      fold (Char.ofNat code) = Char.ofNat code := by
    decide +kernel
  exact forall_ascii (P := fun c => (fold c).isDigit = true → fold c = c) hascii
    ((toNat_fold_lt_iff c).mp (toNat_lt_of_isDigit h)) h

/-- A digit has no other case. -/
theorem lower_of_isDigit {c : Char} (h : c.isDigit = true) : lower c = [c] := by
  have hascii : ∀ code < 128, (Char.ofNat code).isDigit = true →
      lower (Char.ofNat code) = [Char.ofNat code] := by
    decide +kernel
  exact forall_ascii (P := fun c => c.isDigit = true → lower c = [c]) hascii
    (toNat_lt_of_isDigit h) h

theorem lower_fold_of_continuesName {c : Char} (h : continuesName c = true) :
    lower (fold c) = [fold c] := by
  have hascii : ∀ code < 128, lower (fold (Char.ofNat code)) = [fold (Char.ofNat code)] := by
    decide +kernel
  exact forall_ascii (P := fun c => lower (fold c) = [fold c]) hascii (toNat_lt_of_continuesName h)

/-- Neither the capital letters of a run nor their small letters are blanks. -/
theorem blanks_outside_run : ∀ run ∈ CaseRun.all, ∀ range ∈ blanks,
    (run.last < range.first ∨ range.last < run.first) ∧
      (run.small + (run.last - run.first) < range.first ∨ range.last < run.small) := by
  decide +kernel

theorem isBlank_eq_false_iff (c : Char) :
    isBlank c = false ↔ ∀ range ∈ blanks, c.toNat < range.first ∨ range.last < c.toNat := by
  rw [← Bool.not_eq_true, isBlank, CodeRange.covers_iff]
  constructor
  · intro h range hrange
    by_contra hwithin
    exact h ⟨range, hrange, by omega⟩
  · rintro h ⟨range, hrange, hwithin⟩
    have := h range hrange
    omega

theorem isBlank_ofNat_eq_false {code : Nat}
    (h : ∀ range ∈ blanks, code < range.first ∨ range.last < code) :
    isBlank (Char.ofNat code) = false := by
  by_cases hvalid : code.isValidChar
  · have hcode : (Char.ofNat code).toNat = code := by
      rw [Char.ofNat, dif_pos hvalid]
      rfl
    rwa [isBlank_eq_false_iff, hcode]
  · -- What is no code point stands for the character of code zero.
    rw [Char.ofNat, dif_neg hvalid]
    decide

/-- A single lowercase form is a blank exactly if its character is one. -/
theorem isBlank_of_lower_eq {c small : Char} (h : lower c = [small]) :
    isBlank small = isBlank c := by
  have hascii : ∀ code < 128, isBlank (Char.ofNat code).toLower = isBlank (Char.ofNat code) := by
    decide +kernel
  -- A character is looked up as ASCII, as the dotted capital I or in the runs, or it
  -- is its own lowercase form.
  unfold lower at h
  split at h
  · rename_i hlt
    have hc := forall_ascii (P := fun c => isBlank c.toLower = isBlank c) hascii hlt
    rw [← List.singleton_inj.mp h, hc]
  split at h
  · simp at h
  split at h
  · rename_i code hcode
    obtain ⟨run, hrun, hlower⟩ := List.exists_of_findSome?_eq_some hcode
    rw [CaseRun.lower?] at hlower
    split at hlower
    · rename_i hwithin
      cases hlower
      have hsmall := List.singleton_inj.mp h
      rw [← hsmall, isBlank_ofNat_eq_false, (isBlank_eq_false_iff c).mpr]
      · exact fun range hrange => by have := (blanks_outside_run run hrun range hrange).1; omega
      · exact fun range hrange => by have := (blanks_outside_run run hrun range hrange).2; omega
    · cases hlower
  · rw [← List.singleton_inj.mp h]

/-- Folding neither makes a blank nor takes one away. -/
theorem isBlank_fold (c : Char) : isBlank (fold c) = isBlank c := by
  unfold fold
  split
  · rename_i small hlower
    split
    · exact isBlank_of_lower_eq hlower
    · rfl
  · rfl

end Text

/-! ## The spelling of a match -/

/-- How a text of some kind is spelled: in the small letters of a word, as a run
of digits, or as a name. -/
inductive Spells : Kind → List Char → Prop where
  | word {kind : Kind} {text letters : List Char}
      (hrule : (⟨.word letters, kind⟩ : Rule) ∈ Vocabulary.rules)
      (hletters : Text.shadow text = letters) : Spells kind text
  | digits {text : List Char} (hne : text ≠ []) (hdigits : ∀ c ∈ text, c.isDigit = true) :
      Spells .number text
  | name {text : List Char} (hname : isName text = true) : Spells .identifier text

/-- A run takes the characters that continue it, as far as they go. -/
theorem exists_of_reach_run {opens continues : Char → Bool} {cs : List Char}
    (h : (Pattern.run opens continues).reach cs ≠ 0) :
    ∃ c rest, cs.take ((Pattern.run opens continues).reach cs) = c :: rest ∧
      opens (Text.fold c) = true ∧ ∀ d ∈ rest, continues (Text.fold d) = true := by
  cases cs with
  | nil => exact absurd rfl h
  | cons c rest =>
      rw [Pattern.reach] at h ⊢
      by_cases hopens : opens (Text.fold c) = true
      · refine ⟨c, rest.takeWhile fun d => continues (Text.fold d), ?_, hopens, ?_⟩
        · rw [if_pos hopens, List.take_succ_cons,
            ← List.prefix_iff_eq_take.mp (List.takeWhile_prefix _)]
        · exact fun d hd => List.all_eq_true.mp List.all_takeWhile d hd
      · rw [if_neg hopens] at h
        exact absurd rfl h

/-- Whether some letter of a text is outside ASCII, as those with an accent or a tilde are. -/
def Accented (cs : List Char) : Prop :=
  ∃ c ∈ cs, 128 ≤ c.toNat

namespace Vocabulary

theorem exists_word_of_mem_keywordRules {rule : Rule} (h : rule ∈ keywordRules) :
    ∃ letters, rule.pattern = .word letters := by
  have hwords : ∀ kind words, rule ∈ wordRules kind words →
      ∃ letters, rule.pattern = .word letters := by
    intro kind words hmem
    obtain ⟨word, -, rfl⟩ := List.mem_map.mp hmem
    exact ⟨word.toList, rfl⟩
  simp only [keywordRules, List.mem_append] at h
  rcases h with ((hoperator | hsequence) | hpreposition) | hnumber
  · obtain ⟨op, -, hmem⟩ := List.mem_flatMap.mp hoperator
    exact hwords _ _ hmem
  · exact hwords _ _ hsequence
  · exact hwords _ _ hpreposition
  · exact hwords _ _ hnumber

/-- A rule is that of a word, of digits or of names. -/
theorem rule_cases {rule : Rule} (h : rule ∈ rules) :
    (∃ letters, rule.pattern = .word letters) ∨ rule = ⟨.run Char.isDigit Char.isDigit, .number⟩ ∨
      rule = ⟨.run opensName continuesName, .identifier⟩ := by
  simp only [rules, List.mem_append, List.mem_cons, List.not_mem_nil, or_false] at h
  rcases h with hkeyword | hdigits | rfl | rfl | hname
  · exact Or.inl (exists_word_of_mem_keywordRules hkeyword)
  · exact Or.inr (Or.inl hdigits)
  · exact Or.inl ⟨_, rfl⟩
  · exact Or.inl ⟨_, rfl⟩
  · exact Or.inr (Or.inr hname)

/-- The letters of a match are those of a word or of one of the two runs. -/
theorem spells_take {rule : Rule} (hrule : rule ∈ rules) {cs : List Char}
    (h : rule.pattern.reach cs ≠ 0) : Spells rule.kind (cs.take (rule.pattern.reach cs)) := by
  rcases rule_cases hrule with ⟨letters, hpattern⟩ | rfl | rfl
  · have hbegins : beginsWith letters cs = true := by
      by_contra hbegins
      simp [hpattern, Pattern.reach, hbegins] at h
    have hletters : (⟨.word letters, rule.kind⟩ : Rule) ∈ rules := by
      rwa [← hpattern]
    refine .word hletters ?_
    rw [hpattern, Pattern.reach, if_pos hbegins, (beginsWith_iff letters cs).mp hbegins]
  · obtain ⟨c, rest, htake, hopens, hcontinues⟩ := exists_of_reach_run h
    have hdigit : ∀ d, (Text.fold d).isDigit = true → d.isDigit = true := by
      intro d hd
      rwa [Text.fold_of_isDigit hd] at hd
    rw [htake]
    exact .digits (List.cons_ne_nil _ _)
      (List.forall_mem_cons.mpr ⟨hdigit c hopens, fun d hd => hdigit d (hcontinues d hd)⟩)
  · obtain ⟨c, rest, htake, hopens, hcontinues⟩ := exists_of_reach_run h
    rw [htake]
    refine .name ?_
    rw [isName, Bool.and_eq_true, List.all_eq_true]
    exact ⟨(opensName_fold c).symm.trans hopens,
      fun d hd => (continuesName_fold d).symm.trans (hcontinues d hd)⟩

/-- Whatever is cut off is spelled in one of the three ways. -/
theorem spells_of_longest? {cs : List Char} {found : Match} (h : longest? cs = some found) :
    Spells found.kind (cs.take found.length) := by
  obtain ⟨rule, hrule, rfl⟩ := exists_rule h
  exact spells_take hrule (Nat.ne_of_gt (length_pos h))

theorem letters_of_mem_rules : ∀ rule ∈ rules,
    (match rule.pattern with
      | .word letters =>
          letters.all (fun letter => Text.lower letter == [letter] && !Text.isBlank letter) &&
            (rule.kind != .number || (Numeral.wordValue? (String.ofList letters)).isSome) &&
            rule.kind != .identifier
      | .run _ _ => true) = true := by
  decide +kernel

/-- The letters of a word are small letters and no blanks. -/
theorem lower_of_mem_word {letters : List Char} {kind : Kind}
    (h : (⟨.word letters, kind⟩ : Rule) ∈ rules) {letter : Char} (hletter : letter ∈ letters) :
    Text.lower letter = [letter] ∧ Text.isBlank letter = false := by
  have hrule := letters_of_mem_rules _ h
  simp only [Bool.and_eq_true, List.all_eq_true] at hrule
  simpa using hrule.1.1 letter hletter

/-- A word that spells a number has a value. -/
theorem exists_wordValue? {letters : List Char} (h : (⟨.word letters, .number⟩ : Rule) ∈ rules) :
    ∃ value, Numeral.wordValue? (String.ofList letters) = some value := by
  have hrule := letters_of_mem_rules _ h
  simp only [Bool.and_eq_true, Bool.or_eq_true] at hrule
  exact Option.isSome_iff_exists.mp (hrule.1.2.resolve_left (by simp))

theorem kind_ne_identifier_of_word {letters : List Char} {kind : Kind}
    (h : (⟨.word letters, kind⟩ : Rule) ∈ rules) : kind ≠ .identifier := by
  have hrule := letters_of_mem_rules _ h
  simp only [Bool.and_eq_true] at hrule
  simpa using hrule.2

theorem isName_or_accented_of_mem_rules : ∀ rule ∈ rules,
    (match rule.pattern with
      | .word letters =>
          rule.kind == .comma || rule.kind == .assign || isName letters ||
            !rule.kind.isConnector && letters.any fun letter => decide (128 ≤ letter.toNat)
      | .run _ _ => true) = true := by
  decide +kernel

end Vocabulary

/-! ## The text of a match -/

/-- Folding neither puts an accent on a letter nor takes one away. -/
theorem accented_shadow_iff (cs : List Char) : Accented (Text.shadow cs) ↔ Accented cs := by
  simp only [Accented, Text.shadow, List.mem_map, exists_exists_and_eq_and, ← Nat.not_lt,
    toNat_fold_lt_iff]

theorem isBlank_of_continuesName {c : Char} (h : continuesName c = true) :
    Text.isBlank c = false := by
  by_contra hblank
  have hopens := Vocabulary.opensMatch_of_isBlank (Bool.not_eq_false _ ▸ hblank)
  simp [opensMatch, continuesName_fold, h] at hopens

theorem continuesName_of_isDigit {c : Char} (h : c.isDigit = true) : continuesName c = true := by
  simp [continuesName, Char.isAlphanum, h]

theorem continuesName_of_isName {cs : List Char} (h : isName cs = true) :
    ∀ c ∈ cs, continuesName c = true := by
  cases cs with
  | nil => cases h
  | cons c rest =>
      rw [isName, Bool.and_eq_true, List.all_eq_true] at h
      exact List.forall_mem_cons.mpr ⟨continuesName_of_opensName h.1, h.2⟩

/-- A text without blanks has none to trim away. -/
theorem Text.trim_of_forall {cs : List Char} (h : ∀ c ∈ cs, isBlank c = false) : trim cs = cs := by
  obtain ⟨front, back, hfront, hback, hcs⟩ := exists_eq_append_trim cs
  have hnil : ∀ blanks : List Char, (∀ c ∈ blanks, isBlank c = true) → blanks ⊆ cs →
      blanks = [] := by
    intro blanks hblanks hsubset
    refine List.eq_nil_iff_forall_not_mem.mpr fun c hc => ?_
    exact absurd (hblanks c hc) (by simp [h c (hsubset hc)])
  have hfront : front = [] := hnil front hfront (by rw [hcs]; simp)
  have hback : back = [] := hnil back hback (by rw [hcs]; simp)
  rw [hfront, hback, List.nil_append, List.append_nil] at hcs
  exact hcs.symm

namespace Spells

variable {kind : Kind} {text : List Char}

/-- No lexeme holds a blank. -/
theorem isBlank_eq_false (h : Spells kind text) : ∀ c ∈ text, Text.isBlank c = false := by
  intro c hc
  cases h with
  | word hrule hletters =>
      rw [← Text.isBlank_fold]
      exact (Vocabulary.lower_of_mem_word hrule (hletters ▸ List.mem_map_of_mem hc)).2
  | digits _ hdigits => exact isBlank_of_continuesName (continuesName_of_isDigit (hdigits c hc))
  | name hname => exact isBlank_of_continuesName (continuesName_of_isName hname c hc)

theorem trim_eq (h : Spells kind text) : Text.trim text = text :=
  Text.trim_of_forall h.isBlank_eq_false

/-- What is neither a sign nor a run of digits is spelled like a name, unless it has an
accent.  Connectors have none. -/
theorem isName_or_accented (h : Spells kind text) :
    (kind = .comma ∨ kind = .assign) ∨
      (kind = .number ∧ text ≠ [] ∧ ∀ c ∈ text, c.isDigit = true) ∨
        isName text = true ∨ kind.isConnector = false ∧ Accented text := by
  cases h with
  | @word _ _ letters hrule hletters =>
      have hspelled := Vocabulary.isName_or_accented_of_mem_rules _ hrule
      simp only [Bool.or_eq_true, Bool.and_eq_true, beq_iff_eq, Bool.not_eq_true',
        List.any_eq_true, decide_eq_true_eq] at hspelled
      rw [← accented_shadow_iff, ← isName_shadow, hletters]
      rcases hspelled with (hsign | hname) | haccent
      · exact Or.inl hsign
      · exact Or.inr (Or.inr (Or.inl hname))
      · exact Or.inr (Or.inr (Or.inr haccent))
  | digits hne hdigits => exact Or.inr (Or.inl ⟨rfl, hne, hdigits⟩)
  | name hname => exact Or.inr (Or.inr (Or.inl hname))

theorem shadow_eq_of_digits (h : ∀ c ∈ text, c.isDigit = true) : Text.shadow text = text := by
  refine (List.map_congr_left fun c hc => ?_).trans (List.map_id text)
  have hlower := Text.lower_of_isDigit (h c hc)
  simp [Text.fold, hlower]

/-- The small letters of a lexeme are small by themselves. -/
theorem lower_of_mem_shadow (h : Spells kind text) :
    ∀ c ∈ Text.shadow text, Text.lower c = [c] := by
  intro c hc
  cases h with
  | word hrule hletters => exact (Vocabulary.lower_of_mem_word hrule (hletters ▸ hc)).1
  | digits _ hdigits =>
      rw [shadow_eq_of_digits hdigits] at hc
      exact Text.lower_of_isDigit (hdigits c hc)
  | name hname =>
      obtain ⟨d, hd, rfl⟩ := List.mem_map.mp hc
      exact Text.lower_fold_of_continuesName (continuesName_of_isName hname d hd)

/-- The small letters of a lexeme are the same in either way. -/
theorem lowercase_eq (h : Spells kind text) : Text.lowercase text = Text.shadow text :=
  Text.lowercase_eq_shadow h.lower_of_mem_shadow

end Spells

/-! ## Numbers and names -/

/-- Whether a text is a run of digits. -/
def IsDigits (text : String) : Prop :=
  text.toList ≠ [] ∧ ∀ c ∈ text.toList, c.isDigit = true

/-- Whether a normalized text looks like one of its kind, where a kind has more
than one. -/
def Kind.WellSpelled (kind : Kind) (normalized : String) : Prop :=
  match kind with
  | .number => IsDigits normalized
  | .identifier => isName normalized.toList = true
  | .operator _ | .sequence | .preposition | .comma | .assign => True

theorem isDigits_toString (value : Nat) : IsDigits (toString value) := by
  have htoList : (toString value).toList = Nat.toDigits 10 value := by
    simp
  rw [IsDigits, htoList]
  exact ⟨Nat.toDigits_ne_nil, fun c hc => Nat.isDigit_of_mem_toDigits (by decide) (by decide) hc⟩

theorem normalize_of_wordValue? {text word : List Char} {value : Nat}
    (htext : Text.lowercase (Text.trim text) = word)
    (hvalue : Numeral.wordValue? (String.ofList word) = some value) :
    Numeral.normalize (String.ofList text) = toString value := by
  simp only [Numeral.normalize, Numeral.value?, String.toList_ofList, htext, hvalue]

/-- A number is a word with a value or a run of digits. -/
theorem Spells.number_cases {text : List Char} (h : Spells .number text) :
    (∃ value, Numeral.wordValue? (String.ofList (Text.shadow text)) = some value) ∨
      text ≠ [] ∧ ∀ c ∈ text, c.isDigit = true := by
  cases h with
  | word hrule hletters =>
      subst hletters
      exact Or.inl (Vocabulary.exists_wordValue? hrule)
  | digits hne hdigits => exact Or.inr ⟨hne, hdigits⟩

/-- A number normalizes to digits, be it a word or written in digits. -/
theorem Spells.isDigits_normalize {text : List Char} (h : Spells .number text) :
    IsDigits (Numeral.normalize (String.ofList text)) := by
  rcases h.number_cases with ⟨value, hvalue⟩ | ⟨hne, hdigits⟩
  · have hlower : Text.lowercase (Text.trim text) = Text.shadow text := by
      rw [h.trim_eq, h.lowercase_eq]
    rw [normalize_of_wordValue? hlower hvalue]
    exact isDigits_toString value
  · unfold Numeral.normalize
    split
    · exact isDigits_toString _
    · exact ⟨by rwa [String.toList_ofList], by rwa [String.toList_ofList]⟩

/-- The case of its letters does not show in a normalized number. -/
theorem Spells.normalize_shadow {text : List Char} (h : Spells .number text) :
    Numeral.normalize (String.ofList (Text.shadow text)) =
      Numeral.normalize (String.ofList text) := by
  rcases h.number_cases with ⟨value, hvalue⟩ | ⟨-, hdigits⟩
  · have hsmall := h.lower_of_mem_shadow
    have hlower : Text.lowercase (Text.trim text) = Text.shadow text := by
      rw [h.trim_eq, h.lowercase_eq]
    have hblank : ∀ c ∈ Text.shadow text, Text.isBlank c = false := by
      intro c hc
      obtain ⟨d, hd, rfl⟩ := List.mem_map.mp hc
      rw [Text.isBlank_fold, h.isBlank_eq_false d hd]
    have hlower' : Text.lowercase (Text.trim (Text.shadow text)) = Text.shadow text := by
      rw [Text.trim_of_forall hblank, Text.lowercase_eq_self hsmall]
    rw [normalize_of_wordValue? hlower hvalue, normalize_of_wordValue? hlower' hvalue]
  · rw [shadow_eq_of_digits hdigits]

namespace Lexeme

/-- The lexemes of a scan are spelled as their kinds say. -/
theorem Cut.spells {tail : List Char} {lexemes : List Lexeme} (h : Cut tail lexemes) :
    ∀ lexeme ∈ lexemes, Spells lexeme.kind lexeme.text := by
  induction lexemes with
  | nil => simp
  | cons lexeme rest ih =>
      obtain ⟨-, hlongest, -, hrest⟩ := h
      have hspells := Vocabulary.spells_of_longest? hlongest
      rw [List.take_left] at hspells
      exact List.forall_mem_cons.mpr ⟨hspells, ih hrest⟩

theorem Cut.normalized_eq {tail : List Char} {lexemes : List Lexeme} (h : Cut tail lexemes) :
    ∀ lexeme ∈ lexemes, lexeme.normalized = lexeme.kind.canonical (String.ofList lexeme.text) := by
  induction lexemes with
  | nil => simp
  | cons lexeme rest ih => exact List.forall_mem_cons.mpr ⟨h.2.2.1, ih h.2.2.2⟩

theorem Cut.wellSpelled {tail : List Char} {lexemes : List Lexeme} (h : Cut tail lexemes) :
    ∀ lexeme ∈ lexemes, lexeme.kind.WellSpelled lexeme.normalized := by
  intro lexeme hmem
  have hspells := h.spells lexeme hmem
  rw [h.normalized_eq lexeme hmem]
  unfold Kind.WellSpelled
  cases hkind : lexeme.kind with
  | number =>
      rw [hkind] at hspells
      exact hspells.isDigits_normalize
  | identifier =>
      rw [hkind] at hspells
      cases hspells with
      | word hrule => exact absurd rfl (Vocabulary.kind_ne_identifier_of_word hrule)
      | name hname => exact (congrArg isName String.toList_ofList).trans hname
  | operator op | sequence | preposition | comma | assign => trivial

/-- A compound numeral is the digits of its value. -/
theorem wellSpelled_mergeCompounds {lexemes : List Lexeme}
    (h : ∀ lexeme ∈ lexemes, lexeme.kind.WellSpelled lexeme.normalized) :
    ∀ lexeme ∈ mergeCompounds lexemes, lexeme.kind.WellSpelled lexeme.normalized := by
  intro lexeme hmem
  rcases mem_or_compound_of_mem_mergeCompounds hmem with hmem | ⟨tens, joint, units, value, rfl⟩
  · exact h lexeme hmem
  · exact isDigits_toString value

end Lexeme

namespace Token

/-- A keyword is promoted only if it is spelled like a name. -/
theorem wellSpelled_promote {token : Token} (h : token.kind.WellSpelled token.normalized)
    (previous next : Option Kind) :
    (token.promote previous next).kind.WellSpelled (token.promote previous next).normalized := by
  unfold promote
  split
  · rename_i hpromoted
    simp only [Bool.and_eq_true] at hpromoted
    exact hpromoted.1.2
  · exact h

end Token

/-- Every number of a sentence is a run of digits, and every name is a name. -/
theorem Transcript.wellSpelled_ofSource (source : String) :
    ∀ token ∈ (ofSource source).tokens, token.kind.WellSpelled token.normalized := by
  have hlexemes := Lexeme.wellSpelled_mergeCompounds (Scan.cut_ofText source.toList).1.wellSpelled
  refine Token.forall_promoteFrom Token.wellSpelled_promote (fun token htoken => ?_) none
  obtain ⟨lexeme, hmem, hkind, hnormalized, -⟩ := Token.exists_of_mem_ofLexemes htoken
  rw [hkind, hnormalized]
  exact hlexemes lexeme hmem

end SpokenArithmetic
