import WeightedSat.Decimal.Binary64
import WeightedSat.Proofs.Double.Units

/-!
# What a double stands for

What a double stands for is computed from its bits, and the same can be said of the form in which it
is unpacked: the bits are the sign, the exponent and the mantissa, in this order, and nothing is
lost when they are taken apart.

## Main definitions

* `Binary64.ofUnpacked`: what an unpacked double stands for

## Main results

* `ofModel_pack_unpack`, `eq_of_unpack_eq`: unpacking loses nothing
* `ofFloat_eq`: what a double stands for
-/

namespace WeightedSat.Decimal

open Float.Model (UnpackedFloat Format)
open Float.Model.UnpackedFloat

/-- **Unpacking** loses nothing. -/
theorem ofModel_pack_unpack (x : Float) : Float.ofModel (.pack x.toModel.unpack) = x :=
  Float.ofBits_toBits x

theorem eq_of_unpack_eq {x y : Float} (h : x.toModel.unpack = y.toModel.unpack) : x = y := by
  rw [← ofModel_pack_unpack x, h, ofModel_pack_unpack]

/-- What an unpacked double stands for. -/
def Binary64.ofUnpacked : UnpackedFloat → Binary64
  | .notANumber => .undefined
  | .infinity s => .infinite (s == .negative)
  | .zero s => .finite (s == .negative) 0 (-1074)
  | .finite s m e _ => .finite (s == .negative) m e

section Bits

variable (b : BitVec 64)

theorem toNat_unpackExponent :
    (@unpackExponent Format.binary64 b).toNat = b.toNat / 2 ^ 52 % 2 ^ 11 := by
  rw [@unpackExponent_def Format.binary64 b, BitVec.extractLsb'_toNat, Nat.shiftRight_eq_div_pow]

theorem toNat_unpackMantissa :
    (@unpackMantissa Format.binary64 b).toNat = b.toNat % 2 ^ 52 := by
  rw [@unpackMantissa_def Format.binary64 b, BitVec.extractLsb'_toNat, Nat.shiftRight_zero]

theorem negative_iff :
    (Sign.ofBitVec (@unpackSign Format.binary64 b) == .negative) =
      decide (2 ^ 63 ≤ b.toNat) := by
  have hsign : (@unpackSign Format.binary64 b).toNat = b.toNat / 2 ^ 63 % 2 ^ 1 := by
    rw [@unpackSign_def Format.binary64 b, BitVec.extractLsb'_toNat, Nat.shiftRight_eq_div_pow]
    rfl
  have hlt := b.isLt
  generalize (@unpackSign Format.binary64 b : BitVec 1) = s at *
  have hzero : s = 0#1 ↔ s.toNat = 0 := BitVec.toNat_inj.symm
  unfold Sign.ofBitVec
  simp only [hzero]
  split
  · next h => rw [decide_eq_false (by omega)]; rfl
  · next h => rw [decide_eq_true (by omega)]; rfl

end Bits

/-- **What a double stands for** is what it is unpacked to. -/
theorem ofFloat_eq (x : Float) :
    Binary64.ofFloat x = Binary64.ofUnpacked x.toModel.unpack := by
  have hunpack : x.toModel.unpack = unpack Format.binary64 x.toBits.toBitVec := rfl
  have hbits : Binary64.ofFloat x =
      let exponent := (@unpackExponent Format.binary64 x.toBits.toBitVec).toNat
      let fraction := (@unpackMantissa Format.binary64 x.toBits.toBitVec).toNat
      let negative := Sign.ofBitVec (@unpackSign Format.binary64 x.toBits.toBitVec) == .negative
      if exponent = 2047 then
        if fraction = 0 then .infinite negative else .undefined
      else if exponent = 0 then .finite negative fraction (-1074)
      else .finite negative (2 ^ 52 + fraction) (exponent - 1075) := by
    rw [toNat_unpackExponent, toNat_unpackMantissa, negative_iff]
    rfl
  rw [hunpack, unpack_eq_ofFields, hbits]
  generalize Sign.ofBitVec (@unpackSign Format.binary64 x.toBits.toBitVec) = s
  generalize (@unpackExponent Format.binary64 x.toBits.toBitVec : BitVec 11) = e
  generalize (@unpackMantissa Format.binary64 x.toBits.toBitVec : BitVec 52) = f
  have hinf : e = -1#11 ↔ e.toNat = 2047 := BitVec.toNat_inj.symm
  have hzero : e = 0#11 ↔ e.toNat = 0 := BitVec.toNat_inj.symm
  have hfraction : f = 0#52 ↔ f.toNat = 0 := BitVec.toNat_inj.symm
  unfold ofFields
  simp only [hinf, hzero, hfraction]
  split_ifs with _ _ _ hnone
  · rfl
  · rfl
  · rw [hnone]
    rfl
  · rfl
  · rfl

end WeightedSat.Decimal
