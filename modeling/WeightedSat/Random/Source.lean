import WeightedSat.Fault
import WeightedSat.Scalar

/-!
# Word sources and sampling

A word source is a value from which random words are drawn, of thirty-two or of sixty-four bits;
drawing yields the word and the source that remains.  Sampling turns words into what the search
asks for: a number below a bound, a scalar in the unit interval, a fair coin.

A number below `n` is the high half of the product of a word with `n`.  If the low half is so close
to its end that it may carry, one more word is drawn, whose product continues the low half and
decides whether it does.  No further word is drawn, which bounds the number of draws by two.

## Main definitions

* `WordSource ρ`: what can be drawn from a value of type `ρ`.
* `below`, `unit`, `coin`: the three kinds of samples.
-/

namespace WeightedSat

/-- **Word source**: words of two widths can be drawn, each draw leaving the source that remains. -/
class WordSource (ρ : Type) where
  next32 : ρ → UInt32 × ρ
  next64 : ρ → UInt64 × ρ

namespace WordSource

/-- A source of sixty-four bit words, of which the narrow ones are the low halves. -/
@[reducible] def ofWide {ρ : Type} (next : ρ → UInt64 × ρ) : WordSource ρ where
  next64 := next
  next32 s := ((next s).1.toUInt32, (next s).2)

variable {ρ ε F : Type}

/-- A number below `n`, from words below `m`, where `0 < n ≤ m`. -/
def scaled (m : Nat) (word : EStateM ε ρ Nat) (n : Nat) : EStateM ε ρ Nat := do
  let w ← word
  let high := w * n / m
  let low := w * n % m
  -- Only a product so close to the next multiple of `m` can carry.
  if m - n < low then
    let w' ← word
    pure (if m ≤ low + w' * n / m then high + 1 else high)
  else pure high

variable [WordSource ρ]

/-- One narrow word, as a number. -/
def word32 : EStateM ε ρ Nat := fun s =>
  let (w, s) := next32 s
  .ok w.toNat s

/-- One wide word, as a number. -/
def word64 : EStateM ε ρ Nat := fun s =>
  let (w, s) := next64 s
  .ok w.toNat s

/-- A number below `n`, drawn from narrow words if `n` itself is one; a fault, and no draw, if there
is none. -/
def below (n : Nat) : EStateM Fault ρ Nat :=
  if n = 0 then throw .emptyRange
  else if n < 0x100000000 then scaled 0x100000000 word32 n
  else scaled 0x10000000000000000 word64 n

/-- A scalar in the unit interval, a multiple of `2⁻⁵²` below one. -/
def unit [Scalar F] : EStateM ε ρ F := do
  let w ← word64
  pure (Scalar.ofCount (w >>> 12) / Scalar.ofCount 0x10000000000000)

/-- A fair coin: whether a wide word is in the lower half of its range. -/
def coin : EStateM ε ρ Bool := do
  let w ← word64
  pure (w < 0x8000000000000000)

end WordSource

end WeightedSat
