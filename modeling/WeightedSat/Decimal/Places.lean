import WeightedSat.Decimal.Binary64

/-!
# Decimals with fixed places

A double with a given number of digits after the point: its exact value is rounded to the nearest
such decimal, and a value half way between two goes to the one with the even last digit.
-/

namespace WeightedSat.Decimal

/-- The integer nearest to `num / den`, the even one of two. -/
def roundHalfEven (num den : Nat) : Nat :=
  let q := num / den
  let r := num % den
  if 2 * r < den then q
  else if den < 2 * r then q + 1
  else if q % 2 = 0 then q else q + 1

/-- A decimal in positional form: the digits of `d`, of which the last `places` follow the
point. -/
def positional (d places : Nat) : String :=
  if places = 0 then toString d
  else
    let fraction := toString (d % tenTo places)
    let zeros := String.ofList (List.replicate (places - fraction.length) '0')
    toString (d / tenTo places) ++ "." ++ zeros ++ fraction

/-- The magnitude `m · 2 ^ q` of a double with `places` digits after the point. -/
def placesMagnitude (places m : Nat) (q : Int) : String :=
  positional (roundHalfEven (m * twoTo q.toNat * tenTo places) (twoTo (-q).toNat)) places

/-- A double with `places` digits after the point. -/
def placesText (places : Nat) (x : Float) : String :=
  String.join ((Binary64.ofFloat x).pieces fun m q => [placesMagnitude places m q])

end WeightedSat.Decimal
