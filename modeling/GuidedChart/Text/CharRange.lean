/-!
# Ranges of code points

A character property is kept as a list of ranges of code points, both ends included.
-/

namespace GuidedChart.Text

/-- The code points from the first to the second, both included. -/
abbrev CharRange := Nat × Nat

def inRanges (ranges : List CharRange) (c : Char) : Bool :=
  ranges.any fun r => r.1 ≤ c.toNat && c.toNat ≤ r.2

end GuidedChart.Text
