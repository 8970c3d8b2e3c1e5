import SpokenArithmetic.Text.CaseRun
import SpokenArithmetic.Text.Width

/-!
# Small letters

The lowercase form of a character is one character, or two for the capital I
with a dot above.  Text is brought to small letters in two ways.  `lowercase`
takes every form as it is and may change the length of the text.  `fold` puts
one character in the place of another only where both take the same number of
bytes in UTF-8, so a folded text has the positions of the text it comes from.

The form of a character does not depend on its neighbours here.  Full lowercasing
has one such form, `ς` for a capital sigma at the end of a word, and `lowercase`
has `σ` there as everywhere else.  No lookup sees the difference, since no word
that is looked up has a sigma in it (`Numeral.normalize_eq_of_sigmas` and
`Lexeme.compoundValue?_eq_of_sigmas`).
-/

namespace SpokenArithmetic
namespace Text

/-- The lowercase form of a character by itself.  That of a capital sigma is `σ`,
also at the end of a word. -/
def lower (c : Char) : List Char :=
  if c.toNat < 0x80 then
    [c.toLower]
  else if c = 'İ' then
    ['i', '\u0307']
  else
    match CaseRun.all.findSome? (·.lower? c.toNat) with
    | some code => [Char.ofNat code]
    | none => [c]

/-- A text in small letters. -/
def lowercase (cs : List Char) : List Char :=
  cs.flatMap lower

/-- The small letter that can stand in the place of a character without
moving what follows, or the character itself if there is none. -/
def fold (c : Char) : Char :=
  match lower c with
  | [small] => if small.utf8Size = c.utf8Size then small else c
  | _ => c

/-- The small letters of a text, each at the position of the character that
it comes from. -/
def shadow (cs : List Char) : List Char :=
  cs.map fold

@[simp] theorem lowercase_nil : lowercase [] = [] := rfl

@[simp] theorem lowercase_cons (c : Char) (cs : List Char) :
    lowercase (c :: cs) = lower c ++ lowercase cs := rfl

/-- Folding keeps the width of every character. -/
theorem utf8Size_fold (c : Char) : (fold c).utf8Size = c.utf8Size := by
  unfold fold
  split
  · split
    · assumption
    · rfl
  · rfl

@[simp] theorem shadow_nil : shadow [] = [] := rfl

@[simp] theorem shadow_cons (c : Char) (cs : List Char) :
    shadow (c :: cs) = fold c :: shadow cs := rfl

theorem shadow_append (cs ds : List Char) : shadow (cs ++ ds) = shadow cs ++ shadow ds :=
  List.map_append

@[simp] theorem length_shadow (cs : List Char) : (shadow cs).length = cs.length := by
  simp [shadow]

/-- A text and its shadow take the same number of bytes. -/
@[simp] theorem width_shadow (cs : List Char) : width (shadow cs) = width cs := by
  induction cs with
  | nil => rfl
  | cons c rest ih => simp [utf8Size_fold, ih]

end Text
end SpokenArithmetic
