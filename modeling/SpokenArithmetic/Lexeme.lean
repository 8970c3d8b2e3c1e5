import SpokenArithmetic.Vocabulary

/-!
# Lexemes

A scan cuts a text into lexemes from left to right.  At each point it takes
the longest match of the vocabulary.  Where nothing matches, be it a blank or
a character that no rule knows, it passes over one character and goes on.
Each lexeme keeps the characters that were passed over in front of it, and the
scan keeps those behind the last lexeme, so that a scan still holds every
character of the text.

The scan is that of a lexer made by `logos`, whose own code is outside this
library.  That blanks are skipped, and that a scan which finds no match goes on one
character further, is the documented behaviour of that generator, as is the choice
among matches.
-/

namespace SpokenArithmetic

/-- A match in a text, with the characters passed over in front of it. -/
structure Lexeme where
  lead : List Char
  text : List Char
  kind : Kind
  normalized : String
deriving DecidableEq, Repr

/-- A text cut into lexemes, and the characters behind the last of them. -/
structure Scan where
  lexemes : List Lexeme
  trail : List Char
deriving DecidableEq, Repr

/-- The lexeme of a match that takes the whole of `text`. -/
def Lexeme.ofMatch (kind : Kind) (text : List Char) : Lexeme where
  lead := []
  text := text
  kind := kind
  normalized := kind.canonical (String.ofList text)

/-- The characters of a lexeme, those in front of it included. -/
def Lexeme.chars (lexeme : Lexeme) : List Char :=
  lexeme.lead ++ lexeme.text

namespace Scan

/-- A scan with one more lexeme at its start. -/
def cons (lexeme : Lexeme) (scan : Scan) : Scan :=
  { scan with lexemes := lexeme :: scan.lexemes }

/-- A scan with one more character passed over at its start. -/
def passOver (c : Char) (scan : Scan) : Scan :=
  match scan.lexemes with
  | [] => { scan with trail := c :: scan.trail }
  | lexeme :: rest => { scan with lexemes := { lexeme with lead := c :: lexeme.lead } :: rest }

/-- The characters of a scan, in order. -/
def chars (scan : Scan) : List Char :=
  scan.lexemes.flatMap Lexeme.chars ++ scan.trail

/-- The scan of a text. -/
def ofText : List Char → Scan
  | [] => ⟨[], []⟩
  | c :: rest =>
      match _ : Vocabulary.longest? (c :: rest) with
      | some found =>
          cons (Lexeme.ofMatch found.kind ((c :: rest).take found.length))
            (ofText ((c :: rest).drop found.length))
      | none => passOver c (ofText rest)
termination_by cs => cs.length
decreasing_by
  · have := Vocabulary.length_pos ‹_›
    simp only [List.length_drop, List.length_cons]
    omega
  · simp

@[simp] theorem chars_cons (lexeme : Lexeme) (scan : Scan) :
    (cons lexeme scan).chars = lexeme.chars ++ scan.chars := by
  simp [cons, chars]

@[simp] theorem chars_passOver (c : Char) (scan : Scan) :
    (passOver c scan).chars = c :: scan.chars := by
  unfold passOver chars
  split <;> rename_i h <;> simp [h, Lexeme.chars]

@[simp] theorem ofText_nil : ofText [] = ⟨[], []⟩ := by
  rw [ofText]

/-- Where a rule matches, the longest match is cut off. -/
theorem ofText_of_longest? {cs : List Char} {found : Match}
    (h : Vocabulary.longest? cs = some found) :
    ofText cs =
      cons (Lexeme.ofMatch found.kind (cs.take found.length)) (ofText (cs.drop found.length)) := by
  cases cs with
  | nil => exact absurd h (by simp [Vocabulary.longest?_nil])
  | cons c rest =>
      rw [ofText]
      split
      · rename_i other hother
        obtain rfl := Option.some.inj (hother.symm.trans h)
        rfl
      · rename_i hnone
        exact absurd (hnone.symm.trans h) (by simp)

/-- Where no rule matches, one character is passed over. -/
theorem ofText_cons_of_longest? {c : Char} {cs : List Char}
    (h : Vocabulary.longest? (c :: cs) = none) : ofText (c :: cs) = passOver c (ofText cs) := by
  rw [ofText]
  split
  · rename_i found hfound
    exact absurd (hfound.symm.trans h) (by simp)
  · rfl

/-- A scan loses, adds and moves no character. -/
@[simp] theorem chars_ofText (cs : List Char) : (ofText cs).chars = cs := by
  induction cs using ofText.induct with
  | case1 => simp [chars]
  | case2 c rest found h ih =>
      rw [ofText_of_longest? h, chars_cons, ih, Lexeme.ofMatch, Lexeme.chars]
      simp
  | case3 c rest h ih => rw [ofText_cons_of_longest? h, chars_passOver, ih]

end Scan
end SpokenArithmetic
