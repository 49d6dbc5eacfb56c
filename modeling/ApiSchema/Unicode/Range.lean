/-!
# Classes of characters as ranges of code points
-/

namespace ApiSchema.Unicode

/-- The ranges that are left out and taken in turn by runs of these lengths, from a code point on. -/
def ranges (first : Nat) : List Nat → List (Nat × Nat)
  | gap :: length :: runs =>
    (first + gap, first + gap + length - 1) :: ranges (first + gap + length) runs
  | _ => []

/-- Whether a code point lies in one of the ranges, both ends included. -/
def inRanges (ranges : List (Nat × Nat)) (code : Nat) : Bool :=
  ranges.any fun r => r.1 ≤ code && code ≤ r.2

end ApiSchema.Unicode
