/-
Sets of code points given as lists of closed ranges.
-/

namespace Owl.Text

/-- Whether a code point lies in one of the closed ranges. -/
def inRanges (ranges : List (Nat × Nat)) (n : Nat) : Bool :=
  ranges.any fun r => r.1 ≤ n && n ≤ r.2

/-- The closed ranges of a set, by the lengths of its gaps and runs: from `start` on there are, by
turns, so many code points outside of the set and so many in it. -/
def rangesOf (start : Nat) : List Nat → List (Nat × Nat)
  | gap :: run :: rest =>
    (start + gap, start + gap + run - 1) :: rangesOf (start + gap + run) rest
  | _ => []

end Owl.Text
