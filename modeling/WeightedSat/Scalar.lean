import WeightedSat.Count

/-!
# Scalars

Energies and temperatures are scalars: numbers with the four operations, an exponential, a
logarithm and comparisons.  The search is written over any type of them, with no law assumed, so
that what is said about it holds however its comparisons turn out.

## Main definitions

* `Scalar F`: the operations that the search performs on scalars.
* The instance for `Float`: double precision, in which the program runs.
-/

namespace WeightedSat

/-- **Scalar**: the operations on energies and temperatures.  No laws are part of the class. -/
class Scalar (F : Type) extends Add F, Sub F, Mul F, Div F, Neg F, OfScientific F where
  /-- The scalar nearest to a 64-bit count. -/
  ofCount : Nat → F
  exp : F → F
  /-- The natural logarithm. -/
  ln : F → F
  /-- The strict comparison. -/
  lt : F → F → Bool
  /-- The weak comparison. -/
  le : F → F → Bool
  /-- Whether a scalar is a number rather than infinite or undefined. -/
  isFinite : F → Bool
  /-- The least count that is not below a positive number, the largest count if there is none. -/
  ceilCount : F → Nat

/-- The least 64-bit count that is not below a positive double. -/
def ceilCountFloat (x : Float) : Nat :=
  let n := x.toUInt64
  if n.toFloat < x then min (n.toNat + 1) maxCount else n.toNat

instance : Scalar Float where
  ofCount n := n.toUInt64.toFloat
  exp := Float.exp
  ln := Float.log
  lt x y := x < y
  le x y := x ≤ y
  isFinite := Float.isFinite
  ceilCount := ceilCountFloat

end WeightedSat
