import SpokenArithmetic.Lexeme

/-!
# Compound numerals

An exact ten, the word `y` and a unit that follow one another are one number,
such as `treinta y dos`.  The three lexemes become one, which keeps all
characters from the first to the last, whatever was passed over between them.
-/

namespace SpokenArithmetic
namespace Lexeme

/-- The text of a lexeme in small letters. -/
def lowered (lexeme : Lexeme) : String :=
  String.ofList (Text.lowercase lexeme.text)

/-- The value of three lexemes that make up a compound numeral. -/
def compoundValue? (tens joint units : Lexeme) : Option Nat :=
  if tens.kind = .number ∧ joint.kind = .sequence ∧ joint.lowered = "y" ∧ units.kind = .number then
    Numeral.value? (tens.lowered ++ Numeral.link ++ units.lowered)
  else
    none

/-- The one lexeme that three lexemes become. -/
def compound (tens joint units : Lexeme) (value : Nat) : Lexeme where
  lead := tens.lead
  text := tens.text ++ joint.chars ++ units.chars
  kind := .number
  normalized := toString value

/-- Lexemes with every compound numeral made into one, from left to right. -/
def mergeCompounds : List Lexeme → List Lexeme
  | tens :: joint :: units :: rest =>
      match compoundValue? tens joint units with
      | some value => compound tens joint units value :: mergeCompounds rest
      | none => tens :: mergeCompounds (joint :: units :: rest)
  | few => few

@[simp] theorem chars_compound (tens joint units : Lexeme) (value : Nat) :
    (compound tens joint units value).chars = tens.chars ++ joint.chars ++ units.chars := by
  simp [compound, chars]

/-- Merging loses, adds and moves no character. -/
theorem flatMap_chars_mergeCompounds (lexemes : List Lexeme) :
    (mergeCompounds lexemes).flatMap chars = lexemes.flatMap chars := by
  induction lexemes using mergeCompounds.induct with
  | case1 tens joint units rest value h ih => simp [mergeCompounds, h, ih]
  | case2 tens joint units rest h ih =>
      rw [mergeCompounds, h, List.flatMap_cons, ih]
      rfl
  | case3 few h =>
      rw [mergeCompounds]
      exact h

/-- Merging makes nothing but compound numerals. -/
theorem mem_or_compound_of_mem_mergeCompounds {lexemes : List Lexeme} {lexeme : Lexeme}
    (h : lexeme ∈ mergeCompounds lexemes) :
    lexeme ∈ lexemes ∨ ∃ tens joint units value, lexeme = compound tens joint units value := by
  induction lexemes using mergeCompounds.induct with
  | case1 tens joint units rest value hvalue ih =>
      simp only [mergeCompounds, hvalue, List.mem_cons] at h
      rcases h with hcompound | h
      · exact Or.inr ⟨tens, joint, units, value, hcompound⟩
      · exact (ih h).imp_left fun hmem => by simp [hmem]
  | case2 tens joint units rest hvalue ih =>
      simp only [mergeCompounds, hvalue, List.mem_cons] at h
      rcases h with rfl | h
      · exact Or.inl (List.mem_cons_self ..)
      · exact (ih h).imp_left (List.mem_cons_of_mem _)
  | case3 few hfew =>
      rw [mergeCompounds] at h
      · exact Or.inl h
      · exact hfew

/-- Merging makes nothing but numbers. -/
theorem mem_of_mem_mergeCompounds {lexemes : List Lexeme} {lexeme : Lexeme}
    (h : lexeme ∈ mergeCompounds lexemes) : lexeme ∈ lexemes ∨ lexeme.kind = .number := by
  refine (mem_or_compound_of_mem_mergeCompounds h).imp_right ?_
  rintro ⟨tens, joint, units, value, rfl⟩
  rfl

/-- A change of the lexemes that no numeral shows is seen behind merging as it is
seen in each lexeme. -/
theorem map_mergeCompounds_map {α : Type} {change : Lexeme → Lexeme} {seen seen' : Lexeme → α}
    {lexemes : List Lexeme}
    (hvalue : ∀ tens joint units, [tens, joint, units] ⊆ lexemes →
      compoundValue? (change tens) (change joint) (change units) = compoundValue? tens joint units)
    (hseen : ∀ lexeme, seen' (change lexeme) = seen lexeme)
    (hcompound : ∀ tens joint units value,
      seen' (compound (change tens) (change joint) (change units) value) =
        seen (compound tens joint units value)) :
    (mergeCompounds (lexemes.map change)).map seen' = (mergeCompounds lexemes).map seen := by
  induction lexemes using mergeCompounds.induct with
  | case1 tens joint units rest value h ih =>
      have hchanged := (hvalue tens joint units (by simp)).trans h
      have hrest := ih fun tens joint units hmem => hvalue tens joint units (by
        intro lexeme hlexeme
        simp [hmem hlexeme])
      simp only [List.map_cons, mergeCompounds, h, hchanged, hcompound, hrest]
  | case2 tens joint units rest h ih =>
      have hchanged := (hvalue tens joint units (by simp)).trans h
      have hrest := ih fun tens joint units hmem =>
        hvalue tens joint units (List.subset_cons_of_subset _ hmem)
      simp only [List.map_cons, mergeCompounds, h, hchanged, hseen] at hrest ⊢
      rw [hrest]
  | case3 few hfew =>
      rcases few with _ | ⟨tens, _ | ⟨joint, _ | ⟨units, rest⟩⟩⟩
      · rfl
      · simp [mergeCompounds, hseen]
      · simp [mergeCompounds, hseen]
      · exact absurd rfl (hfew tens joint units rest)

end Lexeme
end SpokenArithmetic
