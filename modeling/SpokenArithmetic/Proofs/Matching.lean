import Mathlib.Data.List.Basic
import SpokenArithmetic.Vocabulary

/-!
# What a match depends on

The rules of the vocabulary are many, but cutting a text rests on few facts
about them.  Whether anything matches shows in the first character alone
(`longest?_cons_eq_none_iff`).  A match does not change with what stands behind
a character that no pattern goes on over, such as a space or a comma
(`longest?_append`).  And a connector is spelled like a name
(`isName_of_connector`), so that it can be promoted to one wherever it stands.
-/

namespace SpokenArithmetic

/-- Whether a pattern cannot go on over a character behind the first one. -/
def Pattern.endsAt (c : Char) : Pattern → Bool
  | .word letters => !letters.tail.contains (Text.fold c)
  | .run _ continues => !continues (Text.fold c)

/-- Whether a character opens a match. -/
def opensMatch (c : Char) : Bool :=
  continuesName (Text.fold c) || Text.fold c == ',' || Text.fold c == '='

/-- Whether no match goes on over the first of some characters. -/
def EndsMatch (cs : List Char) : Prop :=
  ∀ c ∈ cs.head?, ∀ rule ∈ Vocabulary.rules, rule.pattern.endsAt c = true

/-! ## Names in either case -/

theorem toNat_lt_of_continuesName {c : Char} (h : continuesName c = true) : c.toNat < 128 := by
  rw [continuesName, Bool.or_eq_true, beq_iff_eq] at h
  rcases h with h | rfl
  · have hcases : (((decide ('A'.val ≤ c.val ∧ c.val ≤ 'Z'.val)) ||
        (decide ('a'.val ≤ c.val) && decide (c.val ≤ 'z'.val))) ||
          (decide ('0'.val ≤ c.val) && decide (c.val ≤ '9'.val))) = true := h
    simp only [Bool.or_eq_true, Bool.and_eq_true, decide_eq_true_eq,
      UInt32.le_iff_toNat_le] at hcases
    have hc : c.toNat = c.val.toNat := rfl
    have hZ : 'Z'.val.toNat = 90 := rfl
    have hz : 'z'.val.toNat = 122 := rfl
    have h9 : '9'.val.toNat = 57 := rfl
    omega
  · decide

theorem continuesName_of_opensName {c : Char} (h : opensName c = true) :
    continuesName c = true := by
  simp only [opensName, continuesName, Char.isAlphanum, Bool.or_eq_true] at h ⊢
  rcases h with h | h
  · exact Or.inl (Or.inl h)
  · exact Or.inr h

theorem opensName_or_isDigit {c : Char} (h : continuesName c = true) :
    opensName c = true ∨ c.isDigit = true := by
  simp only [opensName, continuesName, Char.isAlphanum, Bool.or_eq_true] at h ⊢
  rcases h with (h | h) | h
  · exact Or.inl (Or.inl h)
  · exact Or.inr h
  · exact Or.inl (Or.inr h)

/-- Folding stays within ASCII and outside it. -/
theorem toNat_fold_lt_iff (c : Char) : (Text.fold c).toNat < 128 ↔ c.toNat < 128 := by
  have hsize := Text.utf8Size_fold c
  have hiff : ∀ d : Char, d.toNat < 128 ↔ d.utf8Size = 1 := by
    intro d
    rw [Char.utf8Size_eq_one_iff, UInt32.le_iff_toNat_le]
    exact Nat.lt_succ_iff
  rw [hiff, hiff, hsize]

theorem nameClass_fold_of_lt : ∀ code < 128,
    opensName (Text.fold (Char.ofNat code)) = opensName (Char.ofNat code) ∧
      continuesName (Text.fold (Char.ofNat code)) = continuesName (Char.ofNat code) := by
  decide +kernel

theorem continuesName_fold (c : Char) : continuesName (Text.fold c) = continuesName c := by
  by_cases h : c.toNat < 128
  · have hclass := (nameClass_fold_of_lt c.toNat h).2
    rwa [Char.ofNat_toNat] at hclass
  · have hfold := mt (toNat_fold_lt_iff c).mp h
    rw [Bool.eq_false_iff.mpr (fun hname => hfold (toNat_lt_of_continuesName hname)),
      Bool.eq_false_iff.mpr (fun hname => h (toNat_lt_of_continuesName hname))]

theorem opensName_fold (c : Char) : opensName (Text.fold c) = opensName c := by
  by_cases h : c.toNat < 128
  · have hclass := (nameClass_fold_of_lt c.toNat h).1
    rwa [Char.ofNat_toNat] at hclass
  · have hfold := mt (toNat_fold_lt_iff c).mp h
    have hlt : ∀ {d : Char}, opensName d = true → d.toNat < 128 :=
      fun hname => toNat_lt_of_continuesName (continuesName_of_opensName hname)
    rw [Bool.eq_false_iff.mpr (fun hname => hfold (hlt hname)),
      Bool.eq_false_iff.mpr (fun hname => h (hlt hname))]

theorem isName_shadow (cs : List Char) : isName (Text.shadow cs) = isName cs := by
  cases cs with
  | nil => rfl
  | cons c rest =>
      simp [isName, opensName_fold, Text.shadow, continuesName_fold, Function.comp_def]

/-! ## The reach of a pattern -/

theorem beginsWith_append {letters cs : List Char} (h : letters.length ≤ cs.length)
    (rest : List Char) : beginsWith letters (cs ++ rest) = beginsWith letters cs := by
  rw [Bool.eq_iff_iff, beginsWith_iff, beginsWith_iff, List.take_append_of_le_length h]

/-- A word that goes on behind some characters has a letter behind its first
one there. -/
theorem beginsWith_append_eq_false {letters cs rest : List Char} (hne : cs ≠ [])
    (hlength : cs.length < letters.length)
    (hend : ∀ c ∈ rest.head?, (Pattern.word letters).endsAt c = true) :
    beginsWith letters (cs ++ rest) = false := by
  refine Bool.eq_false_iff.mpr (fun hbegins => ?_)
  rw [beginsWith_iff, List.take_append, List.take_of_length_le (Nat.le_of_lt hlength)] at hbegins
  cases cs with
  | nil => exact hne rfl
  | cons first cs =>
      cases rest with
      | nil =>
          have hsame := congrArg List.length hbegins
          simp at hsame hlength
          omega
      | cons c rest =>
          obtain ⟨count, hcount⟩ := Nat.exists_eq_add_of_lt hlength
          rw [show letters.length - (first :: cs).length = count + 1 by omega] at hbegins
          have hend := hend c rfl
          rw [← hbegins] at hend
          simp [Pattern.endsAt, Text.shadow] at hend

theorem Pattern.reach_le_length (pattern : Pattern) (cs : List Char) :
    pattern.reach cs ≤ cs.length := by
  cases pattern with
  | word letters =>
      rw [reach]
      split
      · rename_i hbegins
        rw [beginsWith_iff] at hbegins
        have hlength := congrArg List.length hbegins
        rw [Text.length_shadow, List.length_take] at hlength
        omega
      · exact Nat.zero_le _
  | run opens continues =>
      cases cs with
      | nil => exact Nat.zero_le _
      | cons c rest =>
          have hle :=
            (List.takeWhile_sublist (fun d => continues (Text.fold d)) (l := rest)).length_le
          rw [reach, List.length_cons]
          split <;> omega

/-- A pattern reaches as far as it did, unless it could go on behind the end. -/
theorem Pattern.reach_append {pattern : Pattern} {cs rest rest' : List Char} (hne : cs ≠ [])
    (hreach : pattern.reach (cs ++ rest) ≤ cs.length)
    (hend : ∀ c ∈ rest'.head?, pattern.endsAt c = true) :
    pattern.reach (cs ++ rest') = pattern.reach (cs ++ rest) := by
  cases pattern with
  | word letters =>
      by_cases hlength : letters.length ≤ cs.length
      · simp only [reach, beginsWith_append hlength]
      · have hlong : cs.length < letters.length := Nat.lt_of_not_le hlength
        have hfalse := beginsWith_append_eq_false hne hlong hend
        have hfalse' : beginsWith letters (cs ++ rest) = false := by
          refine Bool.eq_false_iff.mpr (fun hbegins => ?_)
          simp only [reach, hbegins, if_true] at hreach
          exact hlength hreach
        simp only [reach, hfalse, hfalse']
  | run opens continues =>
      cases cs with
      | nil => exact absurd rfl hne
      | cons first cs =>
          simp only [List.cons_append, reach] at hreach ⊢
          by_cases hopens : opens (Text.fold first) = true
          · have hstop : rest'.takeWhile (fun d => continues (Text.fold d)) = [] := by
              cases rest' with
              | nil => rfl
              | cons c rest' =>
                  have hc : continues (Text.fold c) = false := by
                    simpa [endsAt] using hend c rfl
                  simp [hc]
            simp only [hopens, if_true, List.takeWhile_append, hstop] at hreach ⊢
            split
            · rename_i hall
              rw [if_pos hall] at hreach
              simp only [List.length_append, List.length_cons] at hreach ⊢
              simp only [List.length_nil]
              omega
            · rfl
          · simp [hopens]

/-! ## The longest match -/

namespace Vocabulary

/-- The longest match is that of a rule. -/
theorem exists_rule {cs : List Char} {found : Match} (h : longest? cs = some found) :
    ∃ rule ∈ rules, found = ⟨rule.kind, rule.pattern.reach cs⟩ := by
  obtain ⟨rule, hrule, hmatch⟩ := List.mem_filterMap.mp (List.maxOn?_mem h)
  refine ⟨rule, hrule, ?_⟩
  simp only [Rule.match?] at hmatch
  split at hmatch
  · cases hmatch
  · exact (Option.some.inj hmatch).symm

theorem mem_matches {rule : Rule} (hrule : rule ∈ rules) {cs : List Char}
    (h : rule.pattern.reach cs ≠ 0) :
    (⟨rule.kind, rule.pattern.reach cs⟩ : Match) ∈ rules.filterMap (·.match? cs) :=
  List.mem_filterMap.mpr ⟨rule, hrule, by simp [Rule.match?, h]⟩

theorem reach_le_of_longest? {cs : List Char} {found : Match} (h : longest? cs = some found)
    {rule : Rule} (hrule : rule ∈ rules) : rule.pattern.reach cs ≤ found.length := by
  by_cases hzero : rule.pattern.reach cs = 0
  · omega
  · have hle := List.le_apply_get_maxOn?_of_mem (f := Match.length) (mem_matches hrule hzero)
    rw [longest?] at h
    simpa [h] using hle

theorem longest?_ne_none {rule : Rule} (hrule : rule ∈ rules) {cs : List Char}
    (h : rule.pattern.reach cs ≠ 0) : longest? cs ≠ none :=
  Option.ne_none_iff_isSome.mpr (List.isSome_maxOn?_of_mem (mem_matches hrule h))

theorem length_le_of_longest? {cs : List Char} {found : Match} (h : longest? cs = some found) :
    found.length ≤ cs.length := by
  obtain ⟨rule, _, rfl⟩ := exists_rule h
  exact rule.pattern.reach_le_length cs

/-- A match stays the longest with other characters behind it, if none of the
rules goes on over them. -/
theorem longest?_append {cs rest rest' : List Char} {found : Match}
    (h : longest? (cs ++ rest) = some found) (hlength : found.length ≤ cs.length)
    (hend : EndsMatch rest') : longest? (cs ++ rest') = some found := by
  have hne : cs ≠ [] := by
    rintro rfl
    have := length_pos h
    simp only [List.length_nil] at hlength
    omega
  have hmatches : rules.filterMap (·.match? (cs ++ rest')) =
      rules.filterMap (·.match? (cs ++ rest)) := by
    refine List.filterMap_congr (fun rule hrule => ?_)
    have hreach : rule.pattern.reach (cs ++ rest') = rule.pattern.reach (cs ++ rest) :=
      Pattern.reach_append hne (Nat.le_trans (reach_le_of_longest? h hrule) hlength)
        (fun c hc => hend c hc rule hrule)
    simp only [Rule.match?, hreach]
  rw [← h, longest?, longest?, hmatches]

theorem opens_of_mem_keywordRules : ∀ rule ∈ keywordRules,
    (match rule.pattern with
      | .word (letter :: _) => continuesName letter
      | _ => false) = true := by
  decide +kernel

/-- Whatever matches opens with a character of a name or with a sign. -/
theorem opensMatch_of_reach_ne_zero {rule : Rule} (hrule : rule ∈ rules) {c : Char}
    {rest : List Char} (h : rule.pattern.reach (c :: rest) ≠ 0) : opensMatch c = true := by
  have hword : ∀ letter letters, Pattern.reach (.word (letter :: letters)) (c :: rest) ≠ 0 →
      Text.fold c = letter := by
    intro letter letters hreach
    by_contra hne
    simp [Pattern.reach, beginsWith, hne] at hreach
  simp only [rules, List.mem_append, List.mem_cons, List.not_mem_nil, or_false] at hrule
  rcases hrule with hkeyword | rfl | rfl | rfl | rfl
  · have hopens := opens_of_mem_keywordRules rule hkeyword
    split at hopens
    · rename_i letter letters hpattern
      rw [hpattern] at h
      simp [opensMatch, hword letter letters h, hopens]
    · cases hopens
  · have hopens : (Text.fold c).isDigit = true := by
      by_contra hdigit
      simp [Pattern.reach, hdigit] at h
    simp [opensMatch, continuesName, Char.isAlphanum, hopens]
  · simp [opensMatch, hword ',' [] h]
  · simp [opensMatch, hword '=' [] h]
  · have hopens : opensName (Text.fold c) = true := by
      by_contra hname
      simp [Pattern.reach, hname] at h
    simp [opensMatch, continuesName_of_opensName hopens]

/-- Whether anything matches depends on the first character only. -/
theorem longest?_cons_eq_none_iff (c : Char) (rest : List Char) :
    longest? (c :: rest) = none ↔ opensMatch c = false := by
  constructor
  · intro hnone
    by_contra hopens
    rw [Bool.not_eq_false, opensMatch, Bool.or_eq_true, Bool.or_eq_true, beq_iff_eq,
      beq_iff_eq] at hopens
    -- Each of these characters is a match by itself.
    have hrules : (⟨.run opensName continuesName, .identifier⟩ : Rule) ∈ rules ∧
        (⟨.run Char.isDigit Char.isDigit, .number⟩ : Rule) ∈ rules ∧
        (⟨.word [','], .comma⟩ : Rule) ∈ rules ∧ (⟨.word ['='], .assign⟩ : Rule) ∈ rules := by
      simp [rules]
    obtain ⟨hidentifier, hnumber, hseparator, hsign⟩ := hrules
    rcases hopens with (hname | hcomma) | hassign
    · rcases opensName_or_isDigit hname with hopens | hdigit
      · exact longest?_ne_none hidentifier (by simp [Pattern.reach, hopens]) hnone
      · exact longest?_ne_none hnumber (by simp [Pattern.reach, hdigit]) hnone
    · exact longest?_ne_none hseparator (by simp [Pattern.reach, beginsWith, hcomma]) hnone
    · exact longest?_ne_none hsign (by simp [Pattern.reach, beginsWith, hassign]) hnone
  · intro hopens
    cases hlongest : longest? (c :: rest) with
    | none => rfl
    | some found =>
        obtain ⟨rule, hrule, rfl⟩ := exists_rule hlongest
        have hpositive := length_pos hlongest
        rw [opensMatch_of_reach_ne_zero hrule (Nat.ne_of_gt hpositive)] at hopens
        cases hopens

theorem opensMatch_of_isBlank {c : Char} (h : Text.isBlank c = true) : opensMatch c = false := by
  have hascii : ∀ code < 128, Text.isBlank (Char.ofNat code) = true →
      opensMatch (Char.ofNat code) = false := by
    decide +kernel
  by_cases hlt : c.toNat < 128
  · have hc := hascii c.toNat hlt
    rw [Char.ofNat_toNat] at hc
    exact hc h
  · by_contra hopens
    have hfold := mt (toNat_fold_lt_iff c).mp hlt
    rw [Bool.not_eq_false, opensMatch, Bool.or_eq_true, Bool.or_eq_true, beq_iff_eq,
      beq_iff_eq] at hopens
    rcases hopens with (hname | hcomma) | hassign
    · exact hfold (toNat_lt_of_continuesName hname)
    · exact hfold (by rw [hcomma]; decide)
    · exact hfold (by rw [hassign]; decide)

/-! ## Signs and connectors -/

theorem endsMatch_nil : EndsMatch [] := by
  intro c hc
  cases hc

theorem endsMatch_space (rest : List Char) : EndsMatch (' ' :: rest) := by
  intro c hc
  cases hc
  decide +kernel

theorem endsMatch_comma (rest : List Char) : EndsMatch (',' :: rest) := by
  intro c hc
  cases hc
  decide +kernel

/-- A comma is cut off whatever follows it. -/
theorem longest?_comma (rest : List Char) : longest? (',' :: rest) = some ⟨.comma, 1⟩ := by
  rfl

theorem isName_of_mem_rules : ∀ rule ∈ rules, rule.kind.isConnector = true →
    (match rule.pattern with
      | .word letters => isName letters
      | .run _ _ => false) = true := by
  decide +kernel

/-- A connector is spelled like a name, in whatever case it is written. -/
theorem isName_of_connector {cs : List Char} {found : Match} (h : longest? cs = some found)
    (hconnector : found.kind.isConnector = true) : isName (cs.take found.length) = true := by
  obtain ⟨rule, hrule, rfl⟩ := exists_rule h
  have hpositive : 0 < rule.pattern.reach cs := length_pos h
  have hname := isName_of_mem_rules rule hrule hconnector
  split at hname
  · rename_i letters hpattern
    have hbegins : beginsWith letters cs = true := by
      by_contra hbegins
      simp [hpattern, Pattern.reach, hbegins] at hpositive
    have hreach : rule.pattern.reach cs = letters.length := by
      simp [hpattern, Pattern.reach, hbegins]
    rw [← isName_shadow, hreach, (beginsWith_iff letters cs).mp hbegins, hname]
  · cases hname

end Vocabulary
end SpokenArithmetic
