import SpokenArithmetic.Proofs.Slicing
import SpokenArithmetic.Proofs.Wording

/-!
# Whole words

A word that is spelled like a name is cut off only where no name could go on, or the
name would be the longer match (`Vocabulary.continuesName_eq_false`).  So `suma` in
`sumando` is no operator.

The words with an accent are not guarded in this way, for a name ends in front of
the accent.  Such a word is cut off whatever stands behind it
(`Vocabulary.longest?_of_accented`), and `raízx` is an operator and a name.
-/

namespace SpokenArithmetic

/-- Whether a token is a word with a fixed meaning, be it an operator, a connector or a
number that is not written in digits. -/
def Token.IsWord (token : Token) : Prop :=
  token.isKeyword = true ∨ token.kind = .number ∧ ¬ IsDigits token.written

/-- Whether the character right behind a token of a sentence, if there is one, cannot
go on a name. -/
def Token.Whole (source : String) (token : Token) : Prop :=
  ∀ front c back, source.toList = front ++ c :: back → Text.width front = token.span.stop →
    continuesName c = false

/-! ## Names go on -/

namespace Vocabulary

/-- Behind a match that is spelled like a name, no name can go on. -/
theorem continuesName_eq_false {text rest : List Char} {c : Char} {found : Match}
    (h : longest? (text ++ c :: rest) = some found) (hlength : found.length ≤ text.length)
    (hname : isName text = true) : continuesName c = false := by
  have hrule : (⟨.run opensName continuesName, .identifier⟩ : Rule) ∈ rules := by
    simp [rules]
  have hreach := Nat.le_trans (reach_le_of_longest? h hrule) hlength
  cases text with
  | nil => cases hname
  | cons first text =>
      rw [isName, Bool.and_eq_true, List.all_eq_true] at hname
      obtain ⟨hopens, hcontinues⟩ := hname
      have hall : ∀ d ∈ text, continuesName (Text.fold d) = true := by
        intro d hd
        rw [continuesName_fold]
        exact hcontinues d hd
      rw [List.cons_append, Pattern.reach, opensName_fold, if_pos hopens,
        List.takeWhile_append_of_pos hall, List.length_append] at hreach
      by_contra hc
      rw [Bool.not_eq_false, ← continuesName_fold] at hc
      simp only [List.takeWhile_cons, hc, if_true, List.length_cons] at hreach
      omega

/-! ## Keywords -/

variable {letters text : List Char} {kind : Kind}

/-- A keyword that stands by itself in small letters is what is found there. -/
theorem plainLongest?_of_mem_keywordRules : ∀ rule ∈ keywordRules,
    (match rule.pattern with
      | .word letters => plainLongest? letters == some ⟨rule.kind, letters.length⟩
      | .run _ _ => false) = true := by
  decide +kernel

/-- A keyword with an accent begins no other word. -/
theorem accented_not_prefix : ∀ rule ∈ keywordRules, ∀ other ∈ rules,
    (match rule.pattern, other.pattern with
      | .word letters, .word letters' =>
          letters.all (fun letter => decide (letter.toNat < 128)) ||
            !letters.isPrefixOf letters' || letters == letters'
      | _, _ => true) = true := by
  decide +kernel

/-- A word is reached over as a whole or not at all. -/
theorem reach_word {letters cs : List Char} (h : 0 < (Pattern.word letters).reach cs) :
    beginsWith letters cs = true ∧ (Pattern.word letters).reach cs = letters.length := by
  rw [Pattern.reach] at h ⊢
  split
  · exact ⟨‹_›, rfl⟩
  · rename_i hbegins
    rw [if_neg hbegins] at h
    omega

theorem mem_rules_of_mem_keywordRules {rule : Rule} (h : rule ∈ keywordRules) : rule ∈ rules :=
  List.mem_append_left _ h

/-- A keyword that stands by itself is what is found there, in any case. -/
theorem longest?_of_shadow_eq (hrule : (⟨.word letters, kind⟩ : Rule) ∈ keywordRules)
    (hletters : Text.shadow text = letters) : longest? text = some ⟨kind, text.length⟩ := by
  have hplain := plainLongest?_of_mem_keywordRules _ hrule
  rw [beq_iff_eq] at hplain
  rw [← plainLongest?_shadow, hletters, hplain, ← hletters, Text.length_shadow]

/-- The letters of a keyword are cut off as that keyword, unless more is. -/
theorem longest?_of_keyword {rest : List Char} {found : Match}
    (hrule : (⟨.word letters, kind⟩ : Rule) ∈ keywordRules) (hletters : Text.shadow text = letters)
    (h : longest? (text ++ rest) = some found) (hlength : found.length ≤ text.length) :
    found = ⟨kind, text.length⟩ := by
  have halone := longest?_append h hlength endsMatch_nil
  rw [List.append_nil, longest?_of_shadow_eq hrule hletters] at halone
  exact (Option.some.inj halone).symm

/-- A run that is opened and continued by what can continue a name takes nothing else. -/
theorem continuesName_of_mem_run {opens continues : Char → Bool}
    (hopens : ∀ c, opens c = true → continuesName c = true)
    (hcontinues : ∀ c, continues c = true → continuesName c = true) (cs : List Char) :
    ∀ c ∈ cs.take ((Pattern.run opens continues).reach cs), continuesName c = true := by
  by_cases hreach : (Pattern.run opens continues).reach cs = 0
  · simp [hreach]
  · obtain ⟨first, rest, htake, hfirst, hrest⟩ := exists_of_reach_run hreach
    rw [htake, List.forall_mem_cons, ← continuesName_fold]
    refine ⟨hopens _ hfirst, fun c hc => ?_⟩
    rw [← continuesName_fold]
    exact hcontinues _ (hrest c hc)

/-- No run goes on over a letter with an accent. -/
theorem reach_run_le_of_accented {opens continues : Char → Bool}
    (hopens : ∀ c, opens c = true → continuesName c = true)
    (hcontinues : ∀ c, continues c = true → continuesName c = true) (haccent : Accented text)
    (rest : List Char) : (Pattern.run opens continues).reach (text ++ rest) ≤ text.length := by
  by_contra hlong
  obtain ⟨c, hc, hcode⟩ := haccent
  have htake : c ∈ (text ++ rest).take ((Pattern.run opens continues).reach (text ++ rest)) := by
    rw [List.take_append, List.take_of_length_le (by omega)]
    exact List.mem_append_left _ hc
  have hlt := toNat_lt_of_continuesName (continuesName_of_mem_run hopens hcontinues _ c htake)
  omega

/-- No word goes on over a keyword with an accent, since the keyword begins no other one. -/
theorem reach_word_le_of_accented {letters' : List Char} {kind' : Kind}
    (hrule : (⟨.word letters, kind⟩ : Rule) ∈ keywordRules) (hletters : Text.shadow text = letters)
    (haccent : Accented text) (hother : (⟨.word letters', kind'⟩ : Rule) ∈ rules)
    (rest : List Char) : (Pattern.word letters').reach (text ++ rest) ≤ text.length := by
  by_contra hlong
  obtain ⟨hbegins, hreach⟩ := reach_word (Nat.zero_lt_of_lt (Nat.lt_of_not_le hlong))
  rw [hreach] at hlong
  rw [beginsWith_iff, List.take_append, List.take_of_length_le (by omega),
    Text.shadow_append, hletters] at hbegins
  have hstart : letters.isPrefixOf letters' = true := by
    rw [List.isPrefixOf_iff_prefix, ← hbegins]
    exact List.prefix_append _ _
  have hdiffer := accented_not_prefix _ hrule _ hother
  simp only [hstart, Bool.not_true, Bool.or_false, Bool.or_eq_true, List.all_eq_true,
    decide_eq_true_eq, beq_iff_eq] at hdiffer
  rcases hdiffer with hplain | rfl
  · rw [← accented_shadow_iff, hletters] at haccent
    obtain ⟨c, hc, hcode⟩ := haccent
    have hlt := hplain c hc
    omega
  · rw [← hletters, Text.length_shadow] at hlong
    exact hlong (Nat.le_refl _)

/-- Nothing that is found goes on over a keyword with an accent. -/
theorem length_le_of_accented {rest : List Char} {found : Match}
    (hrule : (⟨.word letters, kind⟩ : Rule) ∈ keywordRules) (hletters : Text.shadow text = letters)
    (haccent : Accented text) (h : longest? (text ++ rest) = some found) :
    found.length ≤ text.length := by
  obtain ⟨rule, hmem, rfl⟩ := exists_rule h
  show rule.pattern.reach (text ++ rest) ≤ text.length
  rcases rule_cases hmem with ⟨letters', hpattern⟩ | rfl | rfl
  · have hother : (⟨.word letters', rule.kind⟩ : Rule) ∈ rules := by
      rwa [← hpattern]
    rw [hpattern]
    exact reach_word_le_of_accented hrule hletters haccent hother rest
  · exact reach_run_le_of_accented (fun c => continuesName_of_isDigit)
      (fun c => continuesName_of_isDigit) haccent rest
  · exact reach_run_le_of_accented (fun c => continuesName_of_opensName) (fun c => id) haccent rest

/-- A keyword with an accent is cut off whatever stands behind it. -/
theorem longest?_of_accented (hrule : (⟨.word letters, kind⟩ : Rule) ∈ keywordRules)
    (hletters : Text.shadow text = letters) (haccent : Accented text) (rest : List Char) :
    longest? (text ++ rest) = some ⟨kind, text.length⟩ := by
  have hne : text ≠ [] := by
    obtain ⟨c, hc, -⟩ := haccent
    exact List.ne_nil_of_mem hc
  have hreach : (Pattern.word letters).reach (text ++ rest) ≠ 0 := by
    have hlength : letters.length = text.length := by
      rw [← hletters, Text.length_shadow]
    have hbegins : beginsWith letters (text ++ rest) = true := by
      rw [beginsWith_iff, hlength, List.take_left, hletters]
    rw [Pattern.reach, if_pos hbegins, hlength]
    exact mt List.length_eq_zero_iff.mp hne
  obtain ⟨found, hfound⟩ := Option.ne_none_iff_exists'.mp
    (longest?_ne_none (mem_rules_of_mem_keywordRules hrule) hreach)
  rw [hfound, longest?_of_keyword hrule hletters hfound
    (length_le_of_accented hrule hletters haccent hfound)]

end Vocabulary

/-! ## Words of a sentence -/

/-- A text of some width is cut off another one in one way only. -/
theorem Text.append_inj_of_width {cs ds cs' ds' : List Char} (h : cs ++ ds = cs' ++ ds')
    (hwidth : width cs = width cs') : cs = cs' ∧ ds = ds' := by
  have hnil : ∀ between : List Char, width between = 0 → between = [] := by
    intro between hzero
    by_contra hne
    have hpositive := width_pos hne
    omega
  rcases List.append_eq_append_iff.mp h with ⟨between, rfl, rfl⟩ | ⟨between, rfl, rfl⟩
  · rw [width_append] at hwidth
    simp [hnil between (by omega)]
  · rw [width_append] at hwidth
    simp [hnil between (by omega)]

namespace Token

/-- A token ends where its lexeme does. -/
theorem exists_split_of_mem_ofLexemes {lexemes : List Lexeme} {start : Nat} {token : Token}
    (h : token ∈ ofLexemes start lexemes) :
    ∃ front lexeme back, lexemes = front ++ lexeme :: back ∧ token.kind = lexeme.kind ∧
      token.written = String.ofList lexeme.text ∧
        token.span.stop = start + Text.width (front.flatMap Lexeme.chars ++ lexeme.chars) := by
  induction lexemes generalizing start with
  | nil => cases h
  | cons first rest ih =>
      rcases List.mem_cons.mp h with rfl | h
      · exact ⟨[], first, rest, rfl, rfl, rfl, by simp [Lexeme.chars, Nat.add_assoc]⟩
      · obtain ⟨front, lexeme, back, rfl, hkind, hwritten, hstop⟩ := ih h
        refine ⟨first :: front, lexeme, back, rfl, hkind, hwritten, ?_⟩
        rw [hstop]
        simp only [List.flatMap_cons, Text.width_append, Lexeme.chars]
        omega

variable {source : String} {token : Token}

/-- A token that is spelled like a name is not followed by what could go on the name. -/
theorem whole_of_isName (h : token ∈ Transcript.scanned source)
    (hname : isName token.written.toList = true) : token.Whole source := by
  intro front c back hsource hwidth
  obtain ⟨before, lexeme, behind, hlexemes, -, hwritten, hstop⟩ := exists_split_of_mem_ofLexemes h
  have hcut := (Scan.cut_ofText source.toList).1
  rw [hlexemes, Lexeme.cut_append] at hcut
  obtain ⟨-, -, hlongest, -⟩ := hcut
  have hchars := (Scan.chars_ofText source.toList).trans hsource
  rw [Scan.chars, hlexemes, List.flatMap_append, List.flatMap_cons, ← List.append_assoc,
    List.append_assoc] at hchars
  have hplace : Text.width (before.flatMap Lexeme.chars ++ lexeme.chars) = Text.width front := by
    rw [hwidth, hstop, Nat.zero_add]
  obtain ⟨-, hrest⟩ := Text.append_inj_of_width hchars hplace
  rw [hrest] at hlongest
  rw [hwritten, String.toList_ofList] at hname
  exact Vocabulary.continuesName_eq_false hlongest (Nat.le_refl _) hname

theorem isName_of_isWord (h : token ∈ Transcript.scanned source) (hword : token.IsWord)
    (hplain : ¬ Accented token.written.toList) : isName token.written.toList = true := by
  obtain ⟨lexeme, hmem, hkind, -, hwritten⟩ := exists_of_mem_ofLexemes h
  have hspells := (Scan.cut_ofText source.toList).1.spells lexeme hmem
  rw [hwritten, String.toList_ofList] at hplain ⊢
  unfold IsWord isKeyword IsDigits at hword
  rw [hkind, hwritten, String.toList_ofList] at hword
  rcases hspells.isName_or_accented with (hsign | hsign) | ⟨hnumber, hdigits⟩ | hname | haccent
  · simp [hsign, Kind.isConnector, Kind.operator?] at hword
  · simp [hsign, Kind.isConnector, Kind.operator?] at hword
  · rcases hword with hkeyword | hletters
    · simp [hnumber, Kind.isConnector, Kind.operator?] at hkeyword
    · exact absurd hdigits hletters.2
  · exact hname
  · exact absurd haccent.2 hplain

/-- A text that begins with a keyword with an accent has it as its first token. -/
theorem exists_scanned_of_accented {letters : List Char} {kind : Kind}
    (hrule : (⟨.word letters, kind⟩ : Rule) ∈ Vocabulary.keywordRules) {written : String}
    (hletters : Text.shadow written.toList = letters) (haccent : Accented letters)
    (rest : String) :
    ∃ behind, Transcript.scanned (written ++ rest) =
      ⟨kind, kind.canonical written, written, ⟨0, written.utf8ByteSize⟩⟩ :: behind := by
  rw [← hletters, accented_shadow_iff] at haccent
  have hlongest := Vocabulary.longest?_of_accented hrule hletters haccent rest.toList
  rw [Transcript.scanned, String.toList_append, Scan.ofText_of_longest? hlongest]
  refine ⟨ofLexemes written.utf8ByteSize (Scan.ofText rest.toList).lexemes, ?_⟩
  simp only [Scan.cons, List.take_left, List.drop_left, Lexeme.ofMatch, ofLexemes,
    Text.width_nil, String.ofList_toList, Nat.zero_add, Text.width_toList]

end Token

open Vocabulary in
/-- An operator, a connector or a number word without an accent stands as a whole word.
One with an accent is taken wherever a text begins with it. -/
theorem words_whole (source : String) :
    (∀ token ∈ Transcript.scanned source, token.IsWord → ¬ Accented token.written.toList →
      token.Whole source) ∧
    ∀ letters kind, (⟨.word letters, kind⟩ : Rule) ∈ keywordRules → Accented letters →
      ∀ written rest : String, Text.shadow written.toList = letters → source = written ++ rest →
        ∃ behind, Transcript.scanned source =
          ⟨kind, kind.canonical written, written, ⟨0, written.utf8ByteSize⟩⟩ :: behind := by
  constructor
  · intro token h hword hplain
    exact Token.whole_of_isName h (Token.isName_of_isWord h hword hplain)
  · intro letters kind hrule haccent written rest hletters hsource
    rw [hsource]
    exact Token.exists_scanned_of_accented hrule hletters haccent rest

/-- An operator in front of a space, and one with an accent in front of a letter. -/
theorem words_whole_of_operators :
    (⟨.operator .add, "+", "SUMA", ⟨0, 4⟩⟩ : Token).Whole "SUMA 2" ∧
      ∃ behind, Transcript.scanned ("Raíz" ++ "x") =
        ⟨.operator .root, "√", "Raíz", ⟨0, 5⟩⟩ :: behind := by
  have hscanned : (⟨.operator .add, "+", "SUMA", ⟨0, 4⟩⟩ : Token) ∈
      Transcript.scanned "SUMA 2" := by
    decide +kernel
  have hplain : ¬ Accented "SUMA".toList := by
    have hcodes : "SUMA".toList.all (fun c => decide (c.toNat < 128)) = true := by
      decide
    rintro ⟨c, hc, hcode⟩
    have hlt := of_decide_eq_true (List.all_eq_true.mp hcodes c hc)
    omega
  have hrule : (⟨.word "raíz".toList, .operator .root⟩ : Rule) ∈ Vocabulary.keywordRules := by
    simp [Vocabulary.keywordRules, Vocabulary.wordRules, Operator.all, Vocabulary.operatorWords]
  have haccent : Accented "raíz".toList := ⟨'í', by decide, by decide⟩
  exact ⟨(words_whole "SUMA 2").1 _ hscanned (Or.inl rfl) hplain,
    (words_whole ("Raíz" ++ "x")).2 _ _ hrule haccent "Raíz" "x" (by decide +kernel) rfl⟩

/-- A name could go on behind an operator with an accent. -/
theorem accented_word_not_whole :
    ∃ token ∈ Transcript.scanned "raízx", token.IsWord ∧ ¬ token.Whole "raízx" := by
  refine ⟨⟨.operator .root, "√", "raíz", ⟨0, 5⟩⟩, by decide +kernel, Or.inl rfl, fun hwhole => ?_⟩
  have hletter := hwhole "raíz".toList 'x' [] (by decide) (by decide)
  cases hletter

end SpokenArithmetic
