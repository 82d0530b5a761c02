/-! # Tables of characters

A class of characters as a table of closed ranges of code points. -/

namespace TreeProjection.Text

/-- Whether a code point lies in one of several closed ranges. -/
def inRanges (ranges : Array (Nat × Nat)) (code : Nat) : Bool :=
  ranges.any fun r => r.1 ≤ code && code ≤ r.2

end TreeProjection.Text
