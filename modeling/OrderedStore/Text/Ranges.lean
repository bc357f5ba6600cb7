/-!
# Ranges of code points

Sets of characters given by ranges of code points, as the tables of Unicode give them.
-/

namespace OrderedStore.Text

/-- Inclusive ranges of code points. -/
abbrev Ranges := List (Nat × Nat)

/-- Whether a code point is in one of the ranges. -/
def Ranges.contain (ranges : Ranges) (code : Nat) : Bool :=
  ranges.any fun (low, high) => low ≤ code && code ≤ high

end OrderedStore.Text
