/-!
# Ranges of Code Points

Character properties are kept as sorted ranges of code points, both ends included.

## Main definitions

* `inRanges`: Membership in one of the ranges.
-/

namespace DialectBuild

namespace Property

/-- Whether `n` lies in one of the ranges, both ends included. -/
def inRanges (ranges : Array (Nat × Nat)) (n : Nat) : Bool :=
  ranges.any fun r => r.1 ≤ n && n ≤ r.2

end Property

end DialectBuild
