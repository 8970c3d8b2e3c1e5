import SpokenArithmetic.Proofs.Merging
import SpokenArithmetic.Proofs.Wording

/-!
# Which texts name a number

A text in small letters names a number if it is a word of the table, or an exact
ten and a unit with a link between them (`Numeral.Names`).  The lookup finds
neither more nor less (`Numeral.value?_eq_some_iff`).  It takes a text apart at
the first link in it, and in the text of a ten and a unit there is no other,
because no word of the table has a space in it.

Whatever names a number is normalized to digits, and a run of digits names nothing
(`Numeral.not_names_of_isDigits`).  So to normalize a second time changes nothing.
-/

namespace SpokenArithmetic
namespace Numeral

/-- Whether a text is an exact ten and a unit with a link between them. -/
structure Joins (text left right : String) (ten unit : Nat) : Prop where
  text_eq : text = left ++ " y " ++ right
  ten_word : (left, ten) ∈ words
  ten_exact : ten ∈ [20, 30, 40, 50, 60, 70, 80, 90]
  unit_word : (right, unit) ∈ words
  unit_digit : 1 ≤ unit ∧ unit ≤ 9

/-- Whether a text in small letters names a value. -/
def Names (text : String) (value : Nat) : Prop :=
  (text, value) ∈ words ∨
    ∃ left right ten unit, Joins text left right ten unit ∧ value = ten + unit

/-- A text in small letters, without the blanks around it. -/
def plain (text : String) : String :=
  String.ofList (Text.lowercase (Text.trim text.toList))

/-- What it is that `normalized` is the text that a numeral is normalized to. -/
structure Normalizes (text normalized : String) : Prop where
  named : ∀ value, Names (plain text) value → normalized = toString value
  other : (∀ value, ¬ Names (plain text) value) → normalized = text
  again : normalize normalized = normalized

/-! ## The words of the table -/

/-- No word stands in the table twice, so the first entry that is found is the only one. -/
theorem wordValue?_eq_some_iff {word : String} {value : Nat} :
    wordValue? word = some value ↔ (word, value) ∈ words := by
  constructor
  · exact mem_words_of_wordValue?
  · have hwords : ∀ entry ∈ words, wordValue? entry.1 = some entry.2 := by
      decide +kernel
    exact hwords (word, value)

theorem mem_tens_iff {word : String} {ten : Nat} :
    (word, ten) ∈ tens ↔ (word, ten) ∈ words ∧ ten ∈ [20, 30, 40, 50, 60, 70, 80, 90] := by
  constructor
  · have htens : ∀ entry ∈ tens, entry ∈ words ∧ entry.2 ∈ [20, 30, 40, 50, 60, 70, 80, 90] := by
      decide +kernel
    exact htens (word, ten)
  · have hwords : ∀ entry ∈ words, entry.2 ∈ [20, 30, 40, 50, 60, 70, 80, 90] →
        entry ∈ tens := by
      decide +kernel
    rintro ⟨hword, hexact⟩
    exact hwords (word, ten) hword hexact

theorem mem_units_iff {word : String} {unit : Nat} :
    (word, unit) ∈ units ↔ (word, unit) ∈ words ∧ 1 ≤ unit ∧ unit ≤ 9 := by
  constructor
  · have hunits : ∀ entry ∈ units, entry ∈ words ∧ 1 ≤ entry.2 ∧ entry.2 ≤ 9 := by
      decide +kernel
    exact hunits (word, unit)
  · have hwords : ∀ entry ∈ words, 1 ≤ entry.2 ∧ entry.2 ≤ 9 → entry ∈ units := by
      decide +kernel
    rintro ⟨hword, hdigit⟩
    exact hwords (word, unit) hword hdigit

theorem space_notMem_of_mem_words {word : String} {value : Nat} (h : (word, value) ∈ words) :
    ' ' ∉ word.toList :=
  (notMem_of_wordValue? (wordValue?_eq_some_iff.mpr h)).1

/-! ## Joined words -/

theorem joins_iff {text left right : String} {ten unit : Nat} :
    Joins text left right ten unit ↔
      text = left ++ link ++ right ∧ (left, ten) ∈ tens ∧ (right, unit) ∈ units := by
  rw [mem_tens_iff, mem_units_iff]
  constructor
  · intro h
    exact ⟨h.text_eq, ⟨h.ten_word, h.ten_exact⟩, h.unit_word, h.unit_digit⟩
  · rintro ⟨htext, ⟨hten, hexact⟩, hunit, hdigit⟩
    exact ⟨htext, hten, hexact, hunit, hdigit⟩

namespace Joins

variable {text left right left' right' : String} {ten unit ten' unit' : Nat}

/-- The ten ends where the first space stands. -/
theorem takeWhile_eq (h : Joins text left right ten unit) :
    text.toList.takeWhile (· != ' ') = left.toList := by
  have hleft : ∀ c ∈ left.toList, (c != ' ') = true := by
    intro c hc
    rw [bne_iff_ne]
    rintro rfl
    exact space_notMem_of_mem_words h.ten_word hc
  rw [h.text_eq, String.toList_append, String.toList_append, List.append_assoc,
    List.takeWhile_append_of_pos hleft]
  simp

/-- A text is joined in one way at most. -/
theorem unique (h : Joins text left right ten unit) (h' : Joins text left' right' ten' unit') :
    left = left' ∧ right = right' ∧ ten = ten' ∧ unit = unit' := by
  have hleft : left = left' := by
    apply String.toList_inj.mp
    rw [← h.takeWhile_eq, ← h'.takeWhile_eq]
  subst hleft
  have hright : right = right' := by
    have htext := congrArg String.toList (h.text_eq.symm.trans h'.text_eq)
    simp only [String.toList_append] at htext
    exact String.toList_inj.mp (List.append_cancel_left htext)
  subst hright
  have hvalue : ∀ {word : String} {value value' : Nat}, (word, value) ∈ words →
      (word, value') ∈ words → value = value' := by
    intro word value value' hword hword'
    rw [← wordValue?_eq_some_iff] at hword hword'
    exact Option.some.inj (hword.symm.trans hword')
  exact ⟨rfl, rfl, hvalue h.ten_word h'.ten_word, hvalue h.unit_word h'.unit_word⟩

/-- A joined text is no single word. -/
theorem notMem_words (h : Joins text left right ten unit) (value : Nat) :
    (text, value) ∉ words := by
  intro hword
  apply space_notMem_of_mem_words hword
  rw [h.text_eq]
  simp

end Joins

/-! ## The lookup -/

/-- Exactly what names a value is found. -/
theorem value?_eq_some_iff {text : String} {value : Nat} :
    value? text = some value ↔ Names text value := by
  constructor
  · intro h
    rw [value?] at h
    split at h
    · rename_i found hword
      cases h
      exact Or.inl (wordValue?_eq_some_iff.mp hword)
    split at h
    · rename_i left right hsplit
      obtain ⟨ten, unit, hten, hunit, rfl⟩ := joinedValue?_eq_some_iff.mp h
      have htext : text = String.ofList left ++ link ++ String.ofList right := by
        apply String.toList_inj.mp
        simpa using eq_of_splitAtLink? hsplit
      exact Or.inr ⟨_, _, ten, unit, joins_iff.mpr ⟨htext, hten, hunit⟩, rfl⟩
    · cases h
  · rintro (hword | ⟨left, right, ten, unit, hjoins, rfl⟩)
    · rw [value?, wordValue?_eq_some_iff.mpr hword]
    · obtain ⟨rfl, hten, hunit⟩ := joins_iff.mp hjoins
      rw [value?_link]
      exact joinedValue?_eq_some_iff.mpr ⟨ten, unit, hten, hunit, rfl⟩

theorem Names.le_hundred {text : String} {value : Nat} (h : Names text value) : value ≤ 100 := by
  rcases h with hword | ⟨left, right, ten, unit, hjoins, rfl⟩
  · have hwords : ∀ entry ∈ words, entry.2 ≤ 100 := by
      decide +kernel
    exact hwords (text, value) hword
  · have htens : ∀ ten ∈ [20, 30, 40, 50, 60, 70, 80, 90], ten ≤ 90 := by
      decide
    have hten := htens ten hjoins.ten_exact
    have hunit := hjoins.unit_digit.2
    omega

/-! ## Normalized texts -/

theorem normalize_eq (text : String) :
    normalize text = ((value? (plain text)).map toString).getD text := by
  unfold normalize plain
  split
  · rename_i value hvalue
    simp [hvalue]
  · rename_i hnone
    simp [hnone]

theorem normalize_of_names {text : String} {value : Nat} (h : Names (plain text) value) :
    normalize text = toString value := by
  rw [normalize_eq, value?_eq_some_iff.mpr h]
  rfl

theorem normalize_of_not_names {text : String} (h : ∀ value, ¬ Names (plain text) value) :
    normalize text = text := by
  have hnone : value? (plain text) = none := by
    rw [Option.eq_none_iff_forall_ne_some]
    exact fun value hvalue => h value (value?_eq_some_iff.mp hvalue)
  rw [normalize_eq, hnone]
  rfl

/-- A run of digits names nothing, since every word has a letter. -/
theorem not_names_of_isDigits {text : String} (h : IsDigits text) (value : Nat) :
    ¬ Names text value := by
  rintro (hword | ⟨left, right, ten, unit, hjoins, rfl⟩)
  · have hwords : ∀ entry ∈ words, entry.1.toList.all Char.isDigit = false := by
      decide +kernel
    have hletter := hwords (text, value) hword
    rw [List.all_eq_true.mpr h.2] at hletter
    cases hletter
  · have hspace : ' ' ∈ text.toList := by
      rw [hjoins.text_eq]
      simp
    exact absurd (h.2 ' ' hspace) (by decide)

theorem plain_of_isDigits {text : String} (h : IsDigits text) : plain text = text := by
  have htrim : Text.trim text.toList = text.toList :=
    Text.trim_of_forall fun c hc => isBlank_of_continuesName (continuesName_of_isDigit (h.2 c hc))
  have hlower : Text.lowercase text.toList = text.toList :=
    Text.lowercase_eq_self fun c hc => Text.lower_of_isDigit (h.2 c hc)
  rw [plain, htrim, hlower, String.ofList_toList]

/-- Digits stay as they are written. -/
theorem normalize_of_isDigits {text : String} (h : IsDigits text) : normalize text = text := by
  apply normalize_of_not_names
  rw [plain_of_isDigits h]
  exact not_names_of_isDigits h

theorem normalize_normalize (text : String) : normalize (normalize text) = normalize text := by
  by_cases hnames : ∃ value, Names (plain text) value
  · obtain ⟨value, hvalue⟩ := hnames
    rw [normalize_of_names hvalue]
    exact normalize_of_isDigits (isDigits_toString value)
  · have hself : normalize text = text := normalize_of_not_names (not_exists.mp hnames)
    rw [hself, hself]

theorem normalizes (text : String) : Normalizes text (normalize text) where
  named := fun _ => normalize_of_names
  other := normalize_of_not_names
  again := normalize_normalize text

/-- The lookup finds the words of the table and the joined ones, in one way each, and no
value above a hundred.  Normalizing puts digits in their place and leaves all else alone. -/
theorem numerals_resolved :
    (∀ text value, value? text = some value ↔ Names text value) ∧
      (∀ text value, Names text value → value ≤ 100) ∧
      (∀ text left right ten unit, Joins text left right ten unit →
        (∀ value, (text, value) ∉ words) ∧
          ∀ left' right' ten' unit', Joins text left' right' ten' unit' →
            left = left' ∧ right = right' ∧ ten = ten' ∧ unit = unit') ∧
      ∀ text, Normalizes text (normalize text) := by
  refine ⟨fun _ _ => value?_eq_some_iff, fun _ _ => Names.le_hundred, ?_, normalizes⟩
  intro text left right ten unit h
  exact ⟨h.notMem_words, fun left' right' ten' unit' => h.unique⟩

/-- Neither the case nor the blanks around it keep a numeral from being found. -/
theorem numerals_resolved_of_padded :
    Joins "veinte y tres" "veinte" "tres" 20 3 ∧ Names (plain "  VEINTE Y TRES ") 23 ∧
      value? "veinte y tres" = some 23 ∧ 23 ≤ 100 ∧ ("veinte y tres", 23) ∉ words ∧
        normalize "  VEINTE Y TRES " = "23" := by
  have hjoins : Joins "veinte y tres" "veinte" "tres" 20 3 := by
    constructor <;> decide +kernel
  have hplain : plain "  VEINTE Y TRES " = "veinte y tres" := by
    decide +kernel
  have hnames : Names "veinte y tres" 23 := Or.inr ⟨_, _, 20, 3, hjoins, rfl⟩
  obtain ⟨hvalue, hle, hjoined, hnormalizes⟩ := numerals_resolved
  refine ⟨hjoins, hplain ▸ hnames, (hvalue _ _).mpr hnames, hle _ _ hnames,
    (hjoined _ _ _ _ _ hjoins).1 23, ?_⟩
  exact (hnormalizes "  VEINTE Y TRES ").named 23 (hplain ▸ hnames)

end Numeral
end SpokenArithmetic
