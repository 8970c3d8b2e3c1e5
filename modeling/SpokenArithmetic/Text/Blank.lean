import SpokenArithmetic.Text.CodeRange

/-!
# Blank characters

Blanks are the characters with the Unicode property White_Space.  They part
words from one another and carry no meaning.  Trimming takes the blanks off
both ends of a text and leaves the blanks inside.
-/

namespace SpokenArithmetic
namespace Text

/-- The ranges of the property White_Space. -/
def blanks : List CodeRange :=
  [⟨0x9, 0xd⟩, ⟨0x20, 0x20⟩, ⟨0x85, 0x85⟩, ⟨0xa0, 0xa0⟩, ⟨0x1680, 0x1680⟩,
    ⟨0x2000, 0x200a⟩, ⟨0x2028, 0x2029⟩, ⟨0x202f, 0x202f⟩, ⟨0x205f, 0x205f⟩, ⟨0x3000, 0x3000⟩]

/-- Whether a character is a blank. -/
def isBlank (c : Char) : Bool :=
  CodeRange.covers blanks c

/-- A text without its leading blanks. -/
def trimStart (cs : List Char) : List Char :=
  cs.dropWhile isBlank

/-- A text without its trailing blanks. -/
def trimEnd (cs : List Char) : List Char :=
  (cs.reverse.dropWhile isBlank).reverse

/-- A text without the blanks at its two ends. -/
def trim (cs : List Char) : List Char :=
  trimEnd (trimStart cs)

@[simp] theorem trimStart_nil : trimStart [] = [] := rfl

@[simp] theorem trimEnd_nil : trimEnd [] = [] := rfl

@[simp] theorem trim_nil : trim [] = [] := rfl

/-- Trimming the start removes a run of blanks and nothing else. -/
theorem takeWhile_append_trimStart (cs : List Char) :
    cs.takeWhile isBlank ++ trimStart cs = cs :=
  List.takeWhile_append_dropWhile

/-- Trimming the end removes a run of blanks and nothing else. -/
theorem trimEnd_append_takeWhile (cs : List Char) :
    trimEnd cs ++ (cs.reverse.takeWhile isBlank).reverse = cs := by
  rw [trimEnd, ← List.reverse_append, List.takeWhile_append_dropWhile, List.reverse_reverse]

/-- Nothing is left of a text without its leading blanks exactly if it is
blank throughout. -/
theorem trimStart_eq_nil_iff (cs : List Char) :
    trimStart cs = [] ↔ ∀ c ∈ cs, isBlank c = true := by
  unfold trimStart
  induction cs with
  | nil => simp
  | cons c rest ih => by_cases h : isBlank c = true <;> simp [h, ih]

/-- Nothing is left of a text without its trailing blanks exactly if it is
blank throughout. -/
theorem trimEnd_eq_nil_iff (cs : List Char) :
    trimEnd cs = [] ↔ ∀ c ∈ cs, isBlank c = true := by
  rw [trimEnd, List.reverse_eq_nil_iff]
  exact (trimStart_eq_nil_iff cs.reverse).trans (by simp)

/-- A text trims to nothing exactly if it is blank throughout. -/
theorem trim_eq_nil_iff (cs : List Char) :
    trim cs = [] ↔ ∀ c ∈ cs, isBlank c = true := by
  rw [trim, trimEnd_eq_nil_iff]
  constructor
  · intro h c hc
    rw [← takeWhile_append_trimStart cs] at hc
    rcases List.mem_append.mp hc with hfront | hback
    · exact List.all_eq_true.mp List.all_takeWhile c hfront
    · exact h c hback
  · intro h c hc
    exact h c (List.dropWhile_subset isBlank hc)

/-- Blanks in front of a text are trimmed away. -/
theorem trim_append_left {blanks : List Char} (h : ∀ c ∈ blanks, isBlank c = true)
    (cs : List Char) : trim (blanks ++ cs) = trim cs := by
  induction blanks with
  | nil => rfl
  | cons c blanks ih =>
      obtain ⟨hc, hblanks⟩ := List.forall_mem_cons.mp h
      rw [← ih hblanks, List.cons_append, trim, trim, trimStart, List.dropWhile_cons_of_pos hc,
        ← trimStart]

/-- Blanks behind a text are trimmed away. -/
theorem trim_append_right {blanks : List Char} (h : ∀ c ∈ blanks, isBlank c = true)
    (cs : List Char) : trim (cs ++ blanks) = trim cs := by
  induction cs with
  | nil => exact (trim_eq_nil_iff _).mpr h
  | cons c cs ih =>
      by_cases hc : isBlank c = true
      · have hfirst : ∀ d ∈ [c], isBlank d = true := by simpa using hc
        have hcons := trim_append_left hfirst
        simp only [List.singleton_append] at hcons
        rw [List.cons_append, hcons, hcons, ih]
      · -- The first character stays, so only the end of the text is looked at.
        have hkept (ds : List Char) : trimStart (c :: ds) = c :: ds :=
          List.dropWhile_cons_of_neg hc
        have hback : ∀ d ∈ blanks.reverse, isBlank d = true := by simpa using h
        rw [List.cons_append, trim, trim, hkept, hkept, ← List.cons_append, trimEnd, trimEnd,
          List.reverse_append, List.dropWhile_append_of_pos hback]

/-- Trimming takes blanks from the two ends and nothing else. -/
theorem exists_eq_append_trim (cs : List Char) :
    ∃ front back, (∀ c ∈ front, isBlank c = true) ∧ (∀ c ∈ back, isBlank c = true) ∧
      cs = front ++ (trim cs ++ back) := by
  refine ⟨cs.takeWhile isBlank, ((trimStart cs).reverse.takeWhile isBlank).reverse, ?_, ?_, ?_⟩
  · intro c hc
    exact List.all_eq_true.mp List.all_takeWhile c hc
  · intro c hc
    exact List.all_eq_true.mp List.all_takeWhile c (List.mem_reverse.mp hc)
  · rw [trim, trimEnd_append_takeWhile, takeWhile_append_trimStart]

theorem trim_trim (cs : List Char) : trim (trim cs) = trim cs := by
  obtain ⟨front, back, hfront, hback, hcs⟩ := exists_eq_append_trim cs
  have htrim := congrArg trim hcs
  rw [trim_append_left hfront, trim_append_right hback] at htrim
  exact htrim.symm

end Text
end SpokenArithmetic
