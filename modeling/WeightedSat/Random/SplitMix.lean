import WeightedSat.Random.Source

/-!
# The split-mix source

A source of sixty-four bit words: a counter that advances by a fixed odd step and whose values are
mixed.
-/

namespace WeightedSat

/-- **Split mix**: the counter. -/
structure SplitMix where
  state : UInt64
deriving DecidableEq, Repr

/-- The mixture of a counter value. -/
def SplitMix.mix (z : UInt64) : UInt64 :=
  let z := (z ^^^ (z >>> 30)) * 0xBF58476D1CE4E5B9
  let z := (z ^^^ (z >>> 27)) * 0x94D049BB133111EB
  z ^^^ (z >>> 31)

instance : WordSource SplitMix :=
  .ofWide fun s =>
    let state := s.state + 0x9E3779B97F4A7C15
    (SplitMix.mix state, ⟨state⟩)

end WeightedSat
