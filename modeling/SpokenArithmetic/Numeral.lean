import SpokenArithmetic.Text.Blank
import SpokenArithmetic.Text.Lowercase

/-!
# Spanish numerals

The number words from `cero` to `cien`, with and without their accents, and
the numerals that join an exact ten and a unit by `y`, such as `treinta y dos`.
A numeral normalizes to the decimal digits of its value; any other text
normalizes to itself.
-/

namespace SpokenArithmetic
namespace Numeral

/-- The number words and their values. -/
def words : List (String × Nat) :=
  [("cero", 0), ("uno", 1), ("dos", 2), ("tres", 3), ("cuatro", 4), ("cinco", 5),
    ("seis", 6), ("siete", 7), ("ocho", 8), ("nueve", 9), ("diez", 10),
    ("once", 11), ("doce", 12), ("trece", 13), ("catorce", 14), ("quince", 15),
    ("dieciséis", 16), ("dieciseis", 16), ("diecisiete", 17), ("dieciocho", 18),
    ("diecinueve", 19), ("veinte", 20), ("veintiuno", 21), ("veintidós", 22),
    ("veintidos", 22), ("veintitrés", 23), ("veintitres", 23), ("veinticuatro", 24),
    ("veinticinco", 25), ("veintiséis", 26), ("veintiseis", 26), ("veintisiete", 27),
    ("veintiocho", 28), ("veintinueve", 29), ("treinta", 30), ("cuarenta", 40),
    ("cincuenta", 50), ("sesenta", 60), ("setenta", 70), ("ochenta", 80),
    ("noventa", 90), ("cien", 100)]

/-- The value of a single number word in small letters. -/
def wordValue? (word : String) : Option Nat :=
  words.lookup word

/-- The value of a word that names an exact ten from `veinte` to `noventa`. -/
def tensValue? (word : String) : Option Nat :=
  (wordValue? word).filter fun value => 20 ≤ value && value ≤ 90 && value % 10 == 0

/-- The value of a word that names a unit from `uno` to `nueve`. -/
def unitsValue? (word : String) : Option Nat :=
  (wordValue? word).filter fun value => 1 ≤ value && value ≤ 9

/-- Whether a word names an exact ten that can open a joined numeral. -/
def isTens (word : String) : Bool :=
  (tensValue? word).isSome

/-- Whether a word names a unit that can close a joined numeral. -/
def isUnits (word : String) : Bool :=
  (unitsValue? word).isSome

/-- The text between the two halves of a joined numeral. -/
def link : String := " y "

/-- The two parts of a text around the first link in it. -/
def splitAtLink? : List Char → Option (List Char × List Char)
  | ' ' :: 'y' :: ' ' :: rest => some ([], rest)
  | c :: rest => (splitAtLink? rest).map fun halves => (c :: halves.1, halves.2)
  | [] => none

/-- The value of a ten and a unit that are joined. -/
def joinedValue? (tens units : String) : Option Nat :=
  match tensValue? tens, unitsValue? units with
  | some ten, some unit => some (ten + unit)
  | _, _ => none

/-- The value of a numeral in small letters, which is a single word or a ten
and a unit around a link. -/
def value? (text : String) : Option Nat :=
  match wordValue? text with
  | some value => some value
  | none =>
      match splitAtLink? text.toList with
      | some (tens, units) => joinedValue? (String.ofList tens) (String.ofList units)
      | none => none

/-- The decimal digits of a numeral in any case, with or without blanks around
it.  A text that is no numeral stays as it is. -/
def normalize (text : String) : String :=
  match value? (String.ofList (Text.lowercase (Text.trim text.toList))) with
  | some value => toString value
  | none => text

/-- The parts around the first link make up the text again. -/
theorem eq_of_splitAtLink? {cs left right : List Char}
    (h : splitAtLink? cs = some (left, right)) : cs = left ++ link.toList ++ right := by
  induction cs using splitAtLink?.induct generalizing left with
  | case1 rest =>
      obtain ⟨rfl, rfl⟩ := Prod.mk.inj (Option.some.inj h)
      rfl
  | case2 c rest hno ih =>
      rw [splitAtLink?] at h
      · obtain ⟨⟨front, back⟩, hrest, heq⟩ := Option.map_eq_some_iff.mp h
        obtain ⟨rfl, rfl⟩ := Prod.mk.inj heq
        rw [ih hrest]
        rfl
      · exact hno
  | case3 => simp [splitAtLink?] at h

end Numeral
end SpokenArithmetic
