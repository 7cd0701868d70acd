import WeightedSat.Decimal.Binary64

/-!
# Shortest decimals

The decimal of a double is the one with the fewest digits among those that read back as the same
double, and among several such the nearest to the exact value; if two are equally near, the larger
one.  It is written positionally, without an exponent, and without a point if it is whole.  It is
written in pieces: the digits on each side of the point, the point, and the zeros that only fill.

The numbers that read back as a double form an interval around it, which reaches half way to its
two neighbours and holds its ends just when the mantissa is even.  Below the mantissa `2⁵²` the
neighbour is half as far away.  The decimals with `k` as their last place form a grid; the coarsest
grid with a point in the interval gives the fewest digits, and of that grid only the two points
around the value need to be looked at.

## Main definitions

* `Interval`: a value and the interval around it, as fractions.
* `shortest`: the last place and the digits of the shortest decimal.
* `shortestPieces`, `shortestText`: a double as text, in pieces and as a whole.
-/

namespace WeightedSat.Decimal

/-- **Interval**: the numbers between `low / den` and `high / den`, the ends belonging to it or
not, around the value `mid / den`. -/
structure Interval where
  low : Nat
  mid : Nat
  high : Nat
  den : Nat
  closed : Bool
deriving DecidableEq, Repr

/-- The numbers that read back as the positive double `m · 2 ^ q`, in quarters of its last bit. -/
def Interval.around (m : Nat) (q : Int) : Interval :=
  let scale := twoTo (q - 2).toNat
  { low := (4 * m - if m = hiddenBit then 1 else 2) * scale
    mid := 4 * m * scale
    high := (4 * m + 2) * scale
    den := twoTo (2 - q).toNat
    closed := m % 2 = 0 }

/-- Whether `d · 10 ^ k` lies in the interval, for the grid of the last place `k` given by its
numerator and denominator. -/
def Interval.contains (i : Interval) (num den d : Nat) : Bool :=
  let x := d * num * i.den
  if i.closed then i.low * den ≤ x && x ≤ i.high * den
  else i.low * den < x && x < i.high * den

/-- The point of the grid with last place `k` that lies in the interval and is nearest to its
value, the larger one of two; none if no point but zero lies in the interval. -/
def Interval.nearest? (i : Interval) (k : Int) : Option Nat :=
  let num := tenTo k.toNat
  let den := tenTo (-k).toNat
  -- The points of the grid next to the value are `below` and `below + 1`.
  let below := i.mid * den / (num * i.den)
  let rest := i.mid * den % (num * i.den)
  let lower := 0 < below && i.contains num den below
  let upper := i.contains num den (below + 1)
  if lower && (!upper || 2 * rest < num * i.den) then some below
  else if upper then some (below + 1)
  else none

/-- The coarsest grid with a point in the interval, going down `n` places from the last place `k`,
and that point. -/
def Interval.coarsest (i : Interval) : Nat → Int → Int × Nat
  | 0, k => (k, (i.nearest? k).getD 0)
  | n + 1, k =>
    match i.nearest? k with
    | some d => (k, d)
    | none => i.coarsest n (k - 1)

/-- A power of ten above the positive double `m · 2 ^ q`, by its exponent. -/
def topPlace (m : Nat) (q : Int) : Int :=
  (((m.log2 : Int) + 1 + q) * 30103) / 100000 + 1

/-- **Shortest decimal** of the positive double `m · 2 ^ q`: its last place and its digits.
Seventeen digits always suffice. -/
def shortest (m : Nat) (q : Int) : Int × Nat :=
  (Interval.around m q).coarsest 20 (topPlace m q)

/-- The most zeros in one piece. -/
def longestRun : Nat := 64

/-- A text of zeros only. -/
def zeros (n : Nat) : String := String.ofList (List.replicate n '0')

/-- A number of zeros, in pieces. -/
def zeroPieces (n : Nat) : List String :=
  let last := n % longestRun
  List.replicate (n / longestRun) (zeros longestRun) ++ if last = 0 then [] else [zeros last]

/-- The pieces of the decimal with some digits, of which `point` stand before the point. -/
def positionalPieces (digits : List Char) (point : Int) : List String :=
  if point ≤ 0 then "0." :: zeroPieces (-point).toNat ++ [String.ofList digits]
  else if point < digits.length then
    [String.ofList (digits.take point.toNat), ".", String.ofList (digits.drop point.toNat)]
  else String.ofList digits :: zeroPieces (point - digits.length).toNat

/-- The pieces of the magnitude `m · 2 ^ q` of a double, in its shortest decimal. -/
def magnitudePieces (m : Nat) (q : Int) : List String :=
  if m = 0 then ["0"]
  else
    let (place, digits) := shortest m q
    let digits := (toString digits).toList
    positionalPieces digits (digits.length + place)

/-- The pieces of a double in its shortest decimal. -/
def shortestPieces (x : Float) : List String :=
  (Binary64.ofFloat x).pieces magnitudePieces

/-- A double in its shortest decimal. -/
def shortestText (x : Float) : String := String.join (shortestPieces x)

end WeightedSat.Decimal
