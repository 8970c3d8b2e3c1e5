/-!
# Ranges of code points

A character property is kept as a list of ranges, in ascending order.  A
character has the property if some range of the list holds its code point.
-/

namespace SpokenArithmetic
namespace Text

/-- The code points from `first` to `last`, both included. -/
structure CodeRange where
  first : Nat
  last : Nat
deriving DecidableEq, Repr

/-- Membership of a code point in one range. -/
def CodeRange.contains (range : CodeRange) (code : Nat) : Bool :=
  range.first ≤ code && code ≤ range.last

/-- Membership of a character in a list of ranges. -/
def CodeRange.covers (ranges : List CodeRange) (c : Char) : Bool :=
  ranges.any (·.contains c.toNat)

theorem CodeRange.contains_iff (range : CodeRange) (code : Nat) :
    range.contains code = true ↔ range.first ≤ code ∧ code ≤ range.last := by
  simp [CodeRange.contains]

theorem CodeRange.covers_iff (ranges : List CodeRange) (c : Char) :
    CodeRange.covers ranges c = true ↔
      ∃ range ∈ ranges, range.first ≤ c.toNat ∧ c.toNat ≤ range.last := by
  simp [CodeRange.covers, CodeRange.contains_iff]

end Text
end SpokenArithmetic
