import WeightedSat.Text.Numeral

/-!
# Reading decimals

The decimals that a command line holds: an optional sign, then digits with at most one point among
them and at least one digit, then an optional exponent; or the names of the infinities and of the
undefined number, in any case.  The double is the nearest one, infinite if the decimal is too
large and zero if it is too small.
-/

namespace WeightedSat.Decimal

/-- The digits at the front of a text, and what follows them. -/
def spanDigits (cs : List Char) : List Char × List Char :=
  (cs.takeWhile Char.isDigit, cs.dropWhile Char.isDigit)

/-- An exponent that makes up a whole text: nothing at all, or the letter `e` and an integer. -/
def exponent? : List Char → Option Int
  | [] => some 0
  | c :: cs =>
    if c = 'e' ∨ c = 'E' then
      match cs with
      | '+' :: ds => (Text.digits? ds).map Int.ofNat
      | '-' :: ds => (Text.digits? ds).map fun n => -Int.ofNat n
      | ds => (Text.digits? ds).map Int.ofNat
    else none

/-- The double nearest to `digits · 10 ^ place`. -/
def nearestFloat (digits : Nat) (place : Int) : Float :=
  Float.ofScientific digits (decide (place < 0)) place.natAbs

/-- The double of an unsigned decimal. -/
def magnitude? (cs : List Char) : Option Float :=
  let (whole, rest) := spanDigits cs
  let (fraction, rest) := match rest with
    | '.' :: cs => spanDigits cs
    | rest => ([], rest)
  if whole.isEmpty && fraction.isEmpty then none
  else
    (exponent? rest).map fun e =>
      nearestFloat (Text.digitsValue (whole ++ fraction)) (e - fraction.length)

/-- The double that an unsigned name stands for. -/
def named? (cs : List Char) : Option Float :=
  let name := String.ofList (cs.map Char.toLower)
  if name = "inf" ∨ name = "infinity" then some (1.0 / 0.0)
  else if name = "nan" then some (0.0 / 0.0)
  else none

/-- **Decimal numeral**: the double that a text stands for. -/
def float? (cs : List Char) : Option Float :=
  let unsigned? := fun ds => (named? ds).or (magnitude? ds)
  match cs with
  | '+' :: ds => unsigned? ds
  | '-' :: ds => (unsigned? ds).map Neg.neg
  | ds => unsigned? ds

end WeightedSat.Decimal
