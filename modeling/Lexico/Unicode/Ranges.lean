/-!
# Sets of characters as ranges

A property of characters is a list of ranges of code points, in order and apart from each other.
-/

namespace Lexico.Unicode

/-- Ranges of code points, both ends included, lowest first. -/
abbrev Ranges := List (Nat × Nat)

/-- A code point is in one of the ranges; the search ends at the first range above it. -/
def Ranges.holds : Ranges → Nat → Bool
  | [], _ => false
  | (low, high) :: rest, n => if n < low then false else n ≤ high || Ranges.holds rest n

end Lexico.Unicode
