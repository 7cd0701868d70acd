import WeightedSat.Random.Source

/-!
# Word cycles

A source of sixty-four bit words that are given in advance: a list that is read over and over.
-/

namespace WeightedSat

/-- **Word cycle**: a list of words, read from its front and then from the start again.  The empty
list is read as zeros. -/
structure WordCycle where
  all : List UInt64
  left : List UInt64 := all
deriving DecidableEq, Repr

/-- The next word of the cycle. -/
def WordCycle.next (s : WordCycle) : UInt64 × WordCycle :=
  match s.left with
  | w :: ws => (w, { s with left := ws })
  | [] =>
    match s.all with
    | w :: ws => (w, { s with left := ws })
    | [] => (0, s)

instance : WordSource WordCycle :=
  .ofWide WordCycle.next

end WeightedSat
