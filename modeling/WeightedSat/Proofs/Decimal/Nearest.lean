import WeightedSat.Decimal.Reading
import WeightedSat.Proofs.Double.Fields
import WeightedSat.Proofs.Double.Quotient

/-!
# Decimals are read as doubles that are close

A decimal without a power of ten above one is a quotient: its digits, divided by a power of ten. It
is read as the double to which it is close, on either of two ways: small digits and small powers are
doubles themselves and are divided as such, and others are divided as whole numbers.

## Main results

* `ofModel_pack_unpack`: unpacking loses nothing
* `hasUnits_toFloat`, `hasUnits_powerOfTen`: whole numbers and powers of ten that are doubles
* `nearestFloat_eq`: a decimal that is close to a double is read as this double
-/

namespace WeightedSat.Decimal

open Float.Model (UnpackedFloat Format)
open Float.Model.UnpackedFloat

theorem div_eq_of_unpack {x y z : Float}
    (h : UnpackedFloat.div Format.binary64 x.toModel.unpack y.toModel.unpack = z.toModel.unpack) :
    x / y = z := by
  rw [← ofModel_pack_unpack z, ← h]
  rfl

theorem mul_eq_of_unpack {x y z : Float}
    (h : UnpackedFloat.mul Format.binary64 x.toModel.unpack y.toModel.unpack = z.toModel.unpack) :
    x * y = z := by
  rw [← ofModel_pack_unpack z, ← h]
  rfl

/-! ## Doubles that are whole numbers -/

/-- A double with a positive number of units is a positive number. -/
theorem hasUnits_of_unitsOf {x : Float} {u : Nat} (h : unitsOf x.toModel.unpack = u) (hu : 0 < u) :
    HasUnits x.toModel.unpack u := by
  generalize hx : x.toModel.unpack = a at h
  subst h
  obtain _ | _ | _ | ⟨_ | _, m, e, hm⟩ := a
  · exact absurd hu (Nat.lt_irrefl 0)
  · exact absurd hu (Nat.lt_irrefl 0)
  · exact absurd hu (Nat.lt_irrefl 0)
  · exact absurd hu (Nat.lt_irrefl 0)
  · obtain ⟨j, rfl, -, hform⟩ := exists_normalForm hx
    rw [(HasUnits.finite hform).unitsOf_eq]
    exact .finite hform

theorem normalForm_shifted {n : Nat} (hn : 0 < n) (hlt : n < 2 ^ 53) :
    NormalForm (n * 2 ^ (52 - n.log2)) (n.log2 + 1022) := by
  have hlog : n.log2 < 53 := (Nat.log2_lt hn.ne').mpr hlt
  have hpow : 2 ^ 52 = 2 ^ n.log2 * 2 ^ (52 - n.log2) := by
    rw [← pow_add, Nat.add_sub_cancel' (Nat.le_of_lt_succ hlog)]
  refine ⟨Nat.mul_pos hn (Nat.two_pow_pos _), ?_, .inl ?_⟩
  · calc n * 2 ^ (52 - n.log2)
      _ < 2 ^ (n.log2 + 1) * 2 ^ (52 - n.log2) :=
        Nat.mul_lt_mul_of_pos_right Nat.lt_log2_self (Nat.two_pow_pos _)
      _ = 2 * (2 ^ n.log2 * 2 ^ (52 - n.log2)) := by ring
      _ = 2 ^ 53 := by rw [← hpow]; rfl
  · rw [hpow]
    exact Nat.mul_le_mul_right _ (Nat.log2_self_le hn.ne')

/-- **Whole numbers** of fifty-three bits are doubles. -/
theorem unitsOf_toFloat {n : Nat} (hn : 0 < n) (hlt : n < 2 ^ 53) :
    unitsOf n.toUInt64.toFloat.toModel.unpack = n * unitsPerOne := by
  have hform := normalForm_shifted hn hlt
  have hlog : n.log2 < 53 := (Nat.log2_lt hn.ne').mpr hlt
  have hnat : n.toUInt64.toNat = n := UInt64.toNat_ofNat_of_lt (hlt.trans_le (by decide))
  have hround : round Format.binary64 .positive n 0 =
      .finite .positive (n * 2 ^ (52 - n.log2)) ((n.log2 + 1022 : Nat) - 1074) hform.pos := by
    have hshift : (0 - max ((n.log2 : Int) + 1 + 0 - 53) (-1074)).toNat = 52 - n.log2 := by omega
    have hexponent : (0 : Int) - (52 - n.log2 : Nat) = (n.log2 + 1022 : Nat) - 1074 := by omega
    show roundWithAccuracy Format.binary64 .positive
      (n <<< (0 - max ((n.log2 : Int) + 1 + 0 - 53) (-1074)).toNat)
      (0 - ((0 - max ((n.log2 : Int) + 1 + 0 - 53) (-1074)).toNat : Int)) .exact = _
    rw [hshift, hexponent, Nat.shiftLeft_eq]
    exact (Close.exact hform.pos _).round_eq hform one_pos one_pos (.exact _)
      (by rw [Nat.mul_one, Nat.mul_one]) hform.full
  have hnormalize : ofUInt64 Format.binary64 n.toUInt64 = round Format.binary64 .positive n 0 := by
    show UnpackedFloat.normalize Format.binary64 (n.toUInt64.toNat : Int) 0 .positive = _
    unfold UnpackedFloat.normalize
    rw [hnat, Int.compare_eq_gt.mpr (Int.natCast_pos.mpr hn)]
    rfl
  have hunpack : n.toUInt64.toFloat.toModel.unpack =
      unpack Format.binary64 (pack Format.binary64 (ofUInt64 Format.binary64 n.toUInt64)) := rfl
  have hsum : 52 - n.log2 + (n.log2 + 1022) = 1074 := by omega
  rw [hunpack, hnormalize, hround, hform.unpack_pack (by omega), (HasUnits.finite hform).unitsOf_eq,
    unitsPerOne, Nat.mul_assoc, ← pow_add, hsum]

theorem map_unitsOf_powersOfTen :
    Float.exactlyRepresentablePowersOfTen.toList.map (fun x => unitsOf x.toModel.unpack) =
      (List.range 23).map fun e => tenTo e * unitsPerOne := by
  decide +kernel

/-- **Powers of ten** in the table of small ones. -/
theorem unitsOf_powerOfTen {e : Nat} (h : e < Float.exactlyRepresentablePowersOfTen.size) :
    unitsOf Float.exactlyRepresentablePowersOfTen[e].toModel.unpack = tenTo e * unitsPerOne := by
  have hmap := congrArg (·[e]?) map_unitsOf_powersOfTen
  have he : e < 23 := h
  simpa [h, he] using hmap

/-! ## Decimals -/

section Close

variable {m j n : Nat} {p : Int} (hform : NormalForm m j) (hn : 0 < n)
include hn

/-- Whole numbers are divided by powers of ten. -/
theorem ofScientific_eq (hlow : -2048 ≤ p) (hhigh : p ≤ 0)
    (h : Close m j (n * unitsPerOne) (tenTo (-p).toNat)) :
    UnpackedFloat.ofScientific Format.binary64 n p =
      .finite .positive m (j - 1074) hform.pos := by
  have hbase : 0 < tenTo (-p).toNat := Nat.pow_pos (by decide)
  unfold UnpackedFloat.ofScientific
  rw [dif_neg hn.ne', if_neg (by norm_num; omega), if_neg (by norm_num; omega)]
  split
  · obtain rfl : p = 0 := by omega
    have hshifted : n <<< Format.binary64.mantissaBits * 10 ^ (0 : Int).toNat *
        (2 ^ 1021 * tenTo (-(0 : Int)).toNat) = n * unitsPerOne := by
      have hone : tenTo (-(0 : Int)).toNat = 1 := rfl
      have hbits : Format.binary64.mantissaBits = 53 := rfl
      rw [hone, hbits, Nat.shiftLeft_eq, unitsPerOne_eq (show 53 + 1021 = 1074 from rfl),
        Int.toNat_zero, pow_zero, Nat.mul_one, Nat.mul_one, Nat.mul_assoc]
    refine h.mul_eq hform hbase rfl hshifted ?_
    rw [Nat.shiftLeft_eq, Int.toNat_zero, pow_zero, Nat.mul_one]
    exact Nat.le_mul_of_pos_left _ hn |>.trans' (by decide)
  · refine h.div_eq (x := 1074) hform hbase rfl ?_
    rw [unitsPerOne, Nat.mul_assoc]
    rfl

omit hn in
theorem tenTo_le_unitsPerOne {e : Nat} (he : e ≤ 22) : tenTo e ≤ unitsPerOne := by
  have hten : tenTo 22 ≤ unitsPerOne := by decide +kernel
  exact le_trans (Nat.pow_le_pow_right (by decide) he) hten

/-- **A decimal that is close to a double** is read as this double. -/
theorem nearestFloat_eq {x : Float}
    (hx : x.toModel.unpack = .finite .positive m (j - 1074) hform.pos) (hlow : -2048 ≤ p)
    (hhigh : p ≤ 0) (h : Close m j (n * unitsPerOne) (tenTo (-p).toNat)) :
    nearestFloat n p = x := by
  have hbase : 0 < tenTo (-p).toNat := Nat.pow_pos (by decide)
  unfold nearestFloat Float.ofScientific
  split
  · next hsmall =>
    obtain ⟨hlt, hplace⟩ := hsmall
    have hnum := hasUnits_of_unitsOf (unitsOf_toFloat hn hlt) (Nat.mul_pos hn unitsPerOne_pos)
    have he : p.natAbs < Float.exactlyRepresentablePowersOfTen.size := Nat.lt_succ_of_le hplace
    have hden := hasUnits_of_unitsOf (unitsOf_powerOfTen he)
      (Nat.mul_pos (Nat.pow_pos (by decide)) unitsPerOne_pos)
    have hsame : p.natAbs = (-p).toNat := by omega
    rcases hhigh.lt_or_eq with hneg | rfl
    · have hle : tenTo p.natAbs * unitsPerOne ≤ n * unitsPerOne * unitsPerOne :=
        Nat.mul_le_mul_right _ ((tenTo_le_unitsPerOne hplace).trans
          (Nat.le_mul_of_pos_left _ hn))
      rw [if_pos (decide_eq_true hneg)]
      refine div_eq_of_unpack ?_
      rw [hx]
      refine h.div_of_hasUnits hform hbase hnum hden
        (Nat.mul_pos (Nat.pow_pos (by decide)) unitsPerOne_pos) hle ?_
      rw [hsame, Nat.mul_assoc, Nat.mul_comm unitsPerOne]
    · rw [if_neg (by decide)]
      refine mul_eq_of_unpack ?_
      rw [hx]
      refine h.mul_of_hasUnits hform hbase hnum hden (Nat.le_mul_of_pos_left _ hn)
        (Nat.le_mul_of_pos_left _ (Nat.pow_pos (by decide))) ?_
      have hone : tenTo (0 : Int).natAbs = 1 := rfl
      have hone' : tenTo (-(0 : Int)).toNat = 1 := rfl
      rw [hone, hone', Nat.one_mul, Nat.mul_one]
  · have hplace : (if decide (p < 0) = true then Int.negOfNat p.natAbs else Int.ofNat p.natAbs) =
        p := by
      rcases hhigh.lt_or_eq with hneg | rfl
      · rw [if_pos (decide_eq_true hneg), Int.negOfNat_eq, Int.ofNat_eq_natCast]
        omega
      · rfl
    dsimp only
    rw [hplace, Float.Model.ofScientific, ofScientific_eq hform hn hlow hhigh h, ← hx]
    exact ofModel_pack_unpack x

end Close

end WeightedSat.Decimal
