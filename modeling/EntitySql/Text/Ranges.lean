/-!
# Ranges of code points

Character properties of Unicode (version 17) are kept as lists of closed ranges of code points,
ascending and apart, with one lookup function.
-/

namespace EntitySql.Text

/-- Whether `n` lies in one of the ranges. The search ends at the first range that starts above
`n`. -/
def inRanges : List (Nat × Nat) → Nat → Bool
  | [], _ => false
  | (first, last) :: rest, n =>
    if n < first then false else if n ≤ last then true else inRanges rest n

end EntitySql.Text
