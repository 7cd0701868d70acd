import WeightedSat.Count

/-!
# Decimal integers

The numerals that texts hold: an optional sign followed by at least one ASCII digit, of a value
inside a given range.  A numeral of naturals admits the sign `+` only.
-/

namespace WeightedSat.Text

/-- The value of a digit string, most significant digit first. -/
def digitsValue (cs : List Char) : Nat :=
  cs.foldl (fun n c => 10 * n + (c.toNat - '0'.toNat)) 0

/-- The value of a nonempty string of ASCII digits. -/
def digits? (cs : List Char) : Option Nat :=
  if !cs.isEmpty && cs.all Char.isDigit then some (digitsValue cs) else none

/-- The value of ASCII digits that follow digits of the value `n`, up to a limit.  A value above
the limit stays above it, whatever follows. -/
def boundedFrom? (limit n : Nat) : List Char → Option Nat
  | [] => some n
  | c :: cs =>
    let m := 10 * n + (c.toNat - '0'.toNat)
    if c.isDigit && m ≤ limit then boundedFrom? limit m cs else none

/-- The value of a nonempty string of ASCII digits, up to a limit. -/
def bounded? (limit : Nat) (cs : List Char) : Option Nat :=
  if cs.isEmpty then none else boundedFrom? limit 0 cs

/-- **Natural numeral**: digits, with or without a sign `+`, of a value up to `limit`. -/
def natural? (limit : Nat) (cs : List Char) : Option Nat :=
  match cs with
  | '+' :: ds => bounded? limit ds
  | ds => bounded? limit ds

/-- **Integer numeral**: digits, with or without a sign, of a magnitude up to one limit if the sign
is `-`, and up to another one if not. -/
def integer? (below above : Nat) (cs : List Char) : Option Int :=
  match cs with
  | '+' :: ds => (bounded? above ds).map Int.ofNat
  | '-' :: ds => (bounded? below ds).map fun n => -Int.ofNat n
  | ds => (bounded? above ds).map Int.ofNat

/-- Sixty-four bit counts, as headers and weight lines hold them. -/
def count? (cs : List Char) : Option Nat :=
  natural? maxCount cs

/-- Signed literal codes, thirty-two bits wide. -/
def literalCode? (cs : List Char) : Option Int :=
  integer? 0x80000000 0x7FFFFFFF cs

end WeightedSat.Text
