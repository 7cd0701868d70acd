/-!
# Doubles as exact numbers

A double is undefined, infinite, or an integer times a power of two.  Everything that is said in
decimal about a double is computed from that integer and that power, never by operations on
doubles.
-/

namespace WeightedSat.Decimal

/-- **Binary number**: what a double stands for. -/
inductive Binary64
  | undefined
  | infinite (negative : Bool)
  /-- The number `mantissa · 2 ^ exponent`, or its negative. -/
  | finite (negative : Bool) (mantissa : Nat) (exponent : Int)
deriving DecidableEq, Repr

/-- A power of two. -/
def twoTo (n : Nat) : Nat := Nat.pow 2 n

/-- A power of ten. -/
def tenTo (n : Nat) : Nat := Nat.pow 10 n

/-- The mantissa from which on a double is normal, `2⁵²`. -/
def hiddenBit : Nat := 0x10000000000000

/-- The number that a double stands for. -/
def Binary64.ofFloat (x : Float) : Binary64 :=
  let bits : Nat := x.toBits.toNat
  let negative := 0x8000000000000000 ≤ bits
  let exponent : Nat := bits / hiddenBit % 0x800
  let fraction : Nat := bits % hiddenBit
  if exponent = 0x7FF then
    if fraction = 0 then .infinite negative else .undefined
  else if exponent = 0 then .finite negative fraction (-1074)
  else .finite negative (hiddenBit + fraction) ((exponent : Int) - 1075)

/-- The pieces of the text of a double, from those of the magnitude of a finite one.  The sign of
zero is kept; what is undefined has none. -/
def Binary64.pieces (magnitude : Nat → Int → List String) : Binary64 → List String
  | .undefined => ["NaN"]
  | .infinite negative => if negative then ["-", "inf"] else ["inf"]
  | .finite negative m q => if negative then "-" :: magnitude m q else magnitude m q

end WeightedSat.Decimal
