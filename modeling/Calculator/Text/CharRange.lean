/-
  Sets of characters given as ranges of code points.  The ranges of a table ascend, so a search
  stops at the first range that starts above the code point: low code points are decided at once.
-/

namespace Calculator.Text

/-- The inclusive ranges of a set of code points, in ascending order. -/
abbrev CharRanges := List (Nat × Nat)

/-- Whether a code point lies in one of the ranges. -/
def CharRanges.has : CharRanges → Nat → Bool
  | [], _ => false
  | (low, high) :: rest, n => if n < low then false else n ≤ high || CharRanges.has rest n

end Calculator.Text
