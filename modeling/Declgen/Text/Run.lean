/-!
# Sets of code points

Character classes are given as lists of runs of code points. A run may skip: many alphabets
put each capital before its small letter, so that a class holds every second code point.
-/

namespace Declgen.Text

/-- The code points `first`, `first + step`, `first + 2 * step`, and so on up to `last`. -/
structure Run where
  /-- The least code point of the run. -/
  first : Nat
  /-- The greatest code point of the run. -/
  last : Nat
  /-- The distance between neighbours. -/
  step : Nat

/-- Whether a code point is in a run. -/
def Run.contains (r : Run) (n : Nat) : Bool :=
  r.first ≤ n && n ≤ r.last && (n - r.first) % r.step == 0

/-- Whether a character is in one of the runs. -/
def inRuns (runs : List Run) (c : Char) : Bool := runs.any (·.contains c.toNat)

end Declgen.Text
