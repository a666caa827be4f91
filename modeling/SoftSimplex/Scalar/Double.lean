import SoftSimplex.Scalar

/-!
Binary floating point as a number system. Values within `1e-8` of zero count as zero.
-/

namespace SoftSimplex

/-- Below this distance a double counts as zero. -/
def Double.tolerance : Float := 1e-8

instance : Scalar Float where
  zero := 0
  one := 1
  order a b :=
    if a < b then some .lt else if a == b then some .eq else if b < a then some .gt else none
  ofNat := Float.ofNat
  tolerance := Double.tolerance
  negligible v := v.abs < Double.tolerance

end SoftSimplex
