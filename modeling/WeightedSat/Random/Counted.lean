import WeightedSat.Random.Source

/-!
# Counting draws

A source that counts the words drawn from another one, the two widths apart.
-/

namespace WeightedSat

/-- **Counted**: a source together with the numbers of narrow and of wide words drawn so far. -/
structure Counted (ρ : Type) where
  source : ρ
  narrow : Nat := 0
  wide : Nat := 0
deriving DecidableEq, Repr

instance {ρ : Type} [WordSource ρ] : WordSource (Counted ρ) where
  next32 s :=
    let (w, source) := WordSource.next32 s.source
    (w, { s with source, narrow := s.narrow + 1 })
  next64 s :=
    let (w, source) := WordSource.next64 s.source
    (w, { s with source, wide := s.wide + 1 })

end WeightedSat
