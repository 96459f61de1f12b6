/-!
# Character ranges

A property of characters outside ASCII is a list of inclusive ranges of code points.
-/

namespace Formulary

/-- Whether the character's code point lies in one of the ranges. -/
def inRanges (ranges : List (Nat × Nat)) (c : Char) : Bool :=
  ranges.any fun range => range.1 ≤ c.toNat && c.toNat ≤ range.2

end Formulary
