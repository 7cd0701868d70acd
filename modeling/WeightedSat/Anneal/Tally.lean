/-!
# Tallies of moves

How many of the moves tried were accepted, how many improved, and for how long none was accepted.
-/

namespace WeightedSat

/-- **Tally**: what became of the moves tried. -/
structure Tally where
  accepted : Nat := 0
  improving : Nat := 0
  /-- The rejections since the last accepted move. -/
  stagnation : Nat := 0
  /-- The most rejections in a row. -/
  longestStagnation : Nat := 0
deriving DecidableEq, Repr

/-- The tally after one more move. -/
def Tally.add (improving accepted : Bool) (t : Tally) : Tally :=
  let t := if improving then { t with improving := t.improving + 1 } else t
  if accepted then { t with accepted := t.accepted + 1, stagnation := 0 }
  else
    let stagnation := t.stagnation + 1
    { t with stagnation, longestStagnation := max t.longestStagnation stagnation }

end WeightedSat
