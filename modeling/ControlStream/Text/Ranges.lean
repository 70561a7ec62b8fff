/-!
# Sets of characters given by ranges

Properties of characters that come from the Unicode database are kept as lists of ranges of code
points.
-/

namespace ControlStream

/-- A set of characters: the ranges of their code points, both ends included. -/
abbrev Ranges := List (Nat × Nat)

def Ranges.contains (ranges : Ranges) (c : Char) : Bool :=
  ranges.any fun r => decide (r.1 ≤ c.toNat) && decide (c.toNat ≤ r.2)

end ControlStream
