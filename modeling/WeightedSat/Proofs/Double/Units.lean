import Mathlib
import WeightedSat.Proofs.Comparison
import WeightedSat.Proofs.Double.Rounding

/-!
# Doubles as multiples of the least

A double is unpacked into a sign, a mantissa and an exponent, and the form is normal: the mantissa
has fifty-three bits, or fewer if the exponent is the least. So a positive double, or the positive
zero, is a number of units, and what the program does with doubles can be told in these numbers. The
comparison is theirs. The product is the product of the two numbers, in squared units, rounded.

The product is rounded bit by bit, with two bits that remember what has gone; these say on which
side of a half the rest lies, and so they round the quotient.

Mathlib is imported whole, since no module of it that deals with doubles passes on the lemmas on
their packed components, such as `unpackSign_packComponents`.

## Main definitions

* `NormalForm m j`: a mantissa and an exponent, counted from the least, as they are unpacked
* `HasUnits a u`: the double is zero or positive and `u` units
* `units x`: the units of a double
* `StandsFor em n d`: a mantissa with its residual bits stands for a quotient

## Main results

* `exists_normalForm`, `NormalForm.unpack_pack`: normal forms are what is unpacked, and are packed
  faithfully
* `HasUnits.le_iff`: the comparison
* `HasUnits.mul`, `HasUnits.mul_float`: the product
* `hasUnits_units`: a number above a double with units has units itself
-/

namespace WeightedSat

open Float.Model (UnpackedFloat Format)
open Float.Model.UnpackedFloat

/-! ## Normal forms -/

/-- **Normal form**: the mantissa has fifty-three bits, or fewer if the exponent is the least. -/
structure NormalForm (m j : Nat) : Prop where
  pos : 0 < m
  lt : m < 2 ^ 53
  full : 2 ^ 52 ≤ m ∨ j = 0

theorem toNat_cons_one (f : BitVec 52) : (1#1 ++ f).toNat = 2 ^ 52 + f.toNat := by
  rw [BitVec.toNat_append, ← Nat.shiftLeft_add_eq_or_of_lt f.isLt]
  rfl

/-- The double with the given fields. -/
def ofFields (s : Sign) (e : BitVec 11) (f : BitVec 52) : UnpackedFloat :=
  if e = -1#11 then
    if f = 0#52 then .infinity s else .notANumber
  else if e = 0#11 then
    if h : f = 0#52 then .zero s
    else .finite s f.toNat (-1074) (Nat.pos_of_ne_zero fun h0 => h (BitVec.eq_of_toNat_eq h0))
  else .finite s (2 ^ 52 + f.toNat) (e.toNat - 1075) (by positivity)

theorem unpack_eq_ofFields (b : BitVec 64) : unpack Format.binary64 b =
    ofFields (.ofBitVec (@unpackSign Format.binary64 b))
      (@unpackExponent Format.binary64 b)
      (@unpackMantissa Format.binary64 b) := by
  unfold UnpackedFloat.unpack ofFields
  simp only [toNat_cons_one]
  split_ifs with _ _ hzero
  · rfl
  · rfl
  · rfl
  · rw [hzero]
    rfl
  · rfl

theorem unpack_packComponents (s : Sign) (e : BitVec 11) (f : BitVec 52) :
    unpack Format.binary64 (packComponents Format.binary64 s e f) = ofFields s e f := by
  rw [unpack_eq_ofFields, unpackMantissa_packComponents, unpackExponent_packComponents,
    unpackSign_packComponents, Sign.ofBitVec_toBitVec]

/-- **What is unpacked** is in normal form, and its exponent is not above the largest. -/
theorem exists_normalForm {b : BitVec 64} {s : Sign} {m : Nat} {e : Int} {hm : 0 < m}
    (h : unpack Format.binary64 b = .finite s m e hm) :
    ∃ j : Nat, e = j - 1074 ∧ j ≤ 2045 ∧ NormalForm m j := by
  rw [unpack_eq_ofFields] at h
  generalize (@unpackExponent Format.binary64 b : BitVec 11) = k at h
  generalize (@unpackMantissa Format.binary64 b : BitVec 52) = f at h
  have hk : k.toNat < 2048 := k.isLt
  have hf : f.toNat < 2 ^ 52 := f.isLt
  unfold ofFields at h
  split_ifs at h with hinf _ hzero _
  · injection h with _ hmantissa hexponent
    exact ⟨0, by omega, by omega, hm, by omega, .inr rfl⟩
  · injection h with _ hmantissa hexponent
    have hne : k.toNat ≠ 0 := fun h0 => hzero (BitVec.eq_of_toNat_eq h0)
    have hne' : k.toNat ≠ 2047 := fun h0 => hinf (BitVec.eq_of_toNat_eq h0)
    exact ⟨k.toNat - 1, by omega, by omega, hm, by omega, .inl (by omega)⟩

namespace NormalForm

variable {m m' j j' : Nat}

theorem log2_add_one_eq_iff (h : NormalForm m j) : m.log2 + 1 = 53 ↔ 2 ^ 52 ≤ m := by
  have hlt := (Nat.log2_lt h.pos.ne').mpr h.lt
  rw [← Nat.le_log2 h.pos.ne']
  omega

theorem pack_eq (h : NormalForm m j) (hj : j ≤ 2045) (s : Sign) :
    pack Format.binary64 (.finite s m (j - 1074) h.pos) =
      packComponents Format.binary64 s (if 2 ^ 52 ≤ m then BitVec.ofNat 11 (j + 1) else 0#11)
        (BitVec.ofNat 52 m) := by
  have hbiased : ((j : Int) - 1074 + 1023 + 52).toNat = j + 1 := by omega
  show (if 2 ^ 11 ≤ ((j : Int) - 1074 + 1023 + 52).toNat + 1 then _ else if m.log2 + 1 = 53 then
    packComponents Format.binary64 s (BitVec.ofNat 11 ((j : Int) - 1074 + 1023 + 52).toNat)
      (BitVec.ofNat 52 m) else packComponents Format.binary64 s 0#11 (BitVec.ofNat 52 m)) = _
  rw [hbiased, if_neg (by omega)]
  simp only [h.log2_add_one_eq_iff]
  split_ifs <;> rfl

/-- **Normal forms are packed faithfully**, if the exponent is not above the largest. -/
theorem unpack_pack (h : NormalForm m j) (hj : j ≤ 2045) (s : Sign) :
    unpack Format.binary64 (pack Format.binary64 (.finite s m (j - 1074) h.pos)) =
      .finite s m (j - 1074) h.pos := by
  have hlt := h.lt
  have hpos := h.pos
  have hf : (BitVec.ofNat 52 m).toNat = m % 2 ^ 52 := BitVec.toNat_ofNat m 52
  rw [h.pack_eq hj, unpack_packComponents, ofFields]
  by_cases hfull : 2 ^ 52 ≤ m
  · have he : (BitVec.ofNat 11 (j + 1)).toNat = j + 1 := by
      rw [BitVec.toNat_ofNat, Nat.mod_eq_of_lt (by omega)]
    have hinf : BitVec.ofNat 11 (j + 1) ≠ -1#11 := by
      intro heq
      have htoNat : (BitVec.ofNat 11 (j + 1)).toNat = 2047 := congrArg BitVec.toNat heq
      omega
    have hzero : BitVec.ofNat 11 (j + 1) ≠ 0#11 := by
      intro heq
      have htoNat : (BitVec.ofNat 11 (j + 1)).toNat = 0 := congrArg BitVec.toNat heq
      omega
    rw [if_pos hfull, if_neg hinf, if_neg hzero]
    congr 1 <;> omega
  · obtain rfl : j = 0 := h.full.resolve_left hfull
    have hzero : BitVec.ofNat 52 m ≠ 0#52 := by
      intro heq
      have htoNat : (BitVec.ofNat 52 m).toNat = 0 := congrArg BitVec.toNat heq
      omega
    rw [if_neg hfull, if_neg (by decide), if_pos rfl, dif_neg hzero]
    congr 1
    omega

/-- The larger exponent decides. -/
theorem mul_lt (h' : NormalForm m' j') (hm : m < 2 ^ 53) (hlt : j < j') :
    m * 2 ^ j < m' * 2 ^ j' := by
  have hfull : 2 ^ 52 ≤ m' := h'.full.resolve_right (by omega)
  calc m * 2 ^ j
    _ < 2 ^ 53 * 2 ^ j := Nat.mul_lt_mul_of_pos_right hm (Nat.two_pow_pos j)
    _ = 2 ^ 52 * 2 ^ (j + 1) := by ring
    _ ≤ m' * 2 ^ j' := Nat.mul_le_mul hfull (Nat.pow_le_pow_right two_pos hlt)

theorem le_iff (h : NormalForm m j) (h' : NormalForm m' j') :
    (j < j' ∨ j = j' ∧ m ≤ m') ↔ m * 2 ^ j ≤ m' * 2 ^ j' := by
  rcases Nat.lt_trichotomy j j' with hlt | rfl | hgt
  · exact iff_of_true (.inl hlt) (h'.mul_lt h.lt hlt).le
  · rw [Nat.mul_le_mul_right_iff (Nat.two_pow_pos j)]
    omega
  · exact iff_of_false (by omega) (h.mul_lt h'.lt hgt).not_ge

end NormalForm

/-! ## Units -/

/-- **Having units**: the double is the positive zero, or positive and in normal form, and `u`
times the least positive one. -/
inductive HasUnits : UnpackedFloat → Nat → Prop
  | zero : HasUnits (.zero .positive) 0
  | finite {m j : Nat} (h : NormalForm m j) :
    HasUnits (.finite .positive m (j - 1074) h.pos) (m * 2 ^ j)

/-- The units of an unpacked double; none if it is negative or no number. -/
def unitsOf : UnpackedFloat → Nat
  | .finite .positive m e _ => m * 2 ^ (e + 1074).toNat
  | _ => 0

/-- **Units**: how many times the least positive double a double is; none if it is negative or no
number. -/
def units (x : Float) : Nat := unitsOf x.toModel.unpack

namespace HasUnits

variable {a b : UnpackedFloat} {u v : Nat}

theorem unitsOf_eq (h : HasUnits a u) : unitsOf a = u := by
  cases h with
  | zero => rfl
  | @finite m j h =>
    show m * 2 ^ ((j : Int) - 1074 + 1074).toNat = m * 2 ^ j
    rw [Int.sub_add_cancel, Int.toNat_natCast]

theorem of_eq {m j : Nat} {e : Int} {hm : 0 < m} (h : NormalForm m j) (he : e = j - 1074) :
    HasUnits (.finite .positive m e hm) (m * 2 ^ j) := by
  subst he
  exact .finite h

/-- **Doubles compare as their units do.** -/
theorem le_iff (ha : HasUnits a u) (hb : HasUnits b v) : a.le b = true ↔ u ≤ v := by
  rw [le_iff_place]
  cases ha with
  | zero =>
    cases hb with
    | zero => simp [place]
    | finite h' => simp [place, Prod.Lex.toLex_le_toLex]
  | finite h =>
    cases hb with
    | zero =>
      refine iff_of_false (fun hle => ?_) (Nat.mul_pos h.pos (Nat.two_pow_pos _)).not_ge
      simp [place, Prod.Lex.toLex_le_toLex] at hle
    | finite h' =>
      rw [← h.le_iff h']
      simp [place, Prod.Lex.toLex_le_toLex]

end HasUnits

/-! ## Rounding -/

/-- **Standing for** a quotient: the mantissa is its whole part, the first residual bit says whether
the rest is half of the divisor or more, and the second one whether it is neither half nor
nothing. -/
structure StandsFor (em : ExtendedMantissa) (n d : Nat) : Prop where
  mantissa_eq : em.mantissa = n / d
  roundBit_iff : em.roundBit = true ↔ d ≤ 2 * (n % d)
  stickyBit_iff : em.stickyBit = true ↔ n % d ≠ 0 ∧ 2 * (n % d) ≠ d

namespace StandsFor

variable {em : ExtendedMantissa} {n d : Nat}

theorem roundedMantissa_eq (h : StandsFor em n d) : em.roundedMantissa = nearest n d := by
  obtain ⟨m, round, sticky⟩ := em
  obtain ⟨rfl, hround, hsticky⟩ := h
  unfold nearest
  -- The two bits say which of the three cases of the quotient it is, exact ones being in the first.
  cases round <;> cases sticky <;>
    simp only [Bool.false_eq_true, false_iff, true_iff] at hround hsticky <;>
    simp only [ExtendedMantissa.roundedMantissa, ExtendedMantissa.accuracy,
      Accuracy.roundToNearestEven] <;>
    split_ifs <;> omega

theorem shiftRightOne (h : StandsFor em n d) (hd : 0 < d) :
    StandsFor em.shiftRightOne n (d * 2) := by
  obtain ⟨m, round, sticky⟩ := em
  obtain ⟨rfl, hround, hsticky⟩ := h
  have hlt := Nat.mod_lt n hd
  constructor
  · exact Nat.div_div_eq_div_mul n d 2
  · simp only [ExtendedMantissa.shiftRightOne, bne_iff_ne, Nat.mod_mul]
    rcases Nat.mod_two_eq_zero_or_one (n / d) with hq | hq <;> rw [hq] <;> omega
  · simp only [ExtendedMantissa.shiftRightOne, Bool.or_eq_true, Nat.mod_mul, hround, hsticky]
    rcases Nat.mod_two_eq_zero_or_one (n / d) with hq | hq <;> rw [hq] <;> omega

theorem shiftRight (h : StandsFor em n d) (hd : 0 < d) (k : Nat) :
    StandsFor (em >>> k) n (d * 2 ^ k) := by
  show StandsFor (k.repeat ExtendedMantissa.shiftRightOne _) n (d * 2 ^ k)
  induction k with
  | zero => simpa [Nat.repeat] using h
  | succ k ih =>
    rw [pow_succ, ← Nat.mul_assoc]
    exact ih.shiftRightOne (Nat.mul_pos hd (Nat.two_pow_pos k))

/-- A mantissa without residual bits stands for itself. -/
theorem exact (n : Nat) :
    StandsFor (ExtendedMantissa.ofMantissaAndAccuracy n .exact) n 1 := by
  constructor <;> simp [ExtendedMantissa.ofMantissaAndAccuracy, Nat.mod_one]

end StandsFor

/-- The bits by which a mantissa is shifted to its place. -/
def shiftAmount (n : Nat) (e : Int) : Nat := (max ((n.log2 : Int) + 1 + e - 53) (-1074) - e).toNat

/-- **Rounding** shifts, rounds, and shifts once more in case there is a bit too many. -/
theorem roundWithAccuracy_eq {s : Sign} {m n d r c c' : Nat} {e : Int} {acc : Accuracy}
    (h : StandsFor (ExtendedMantissa.ofMantissaAndAccuracy m acc) n d) (hd : 0 < d)
    (hc : shiftAmount m e = c) (hr : nearest n (d * 2 ^ c) = r)
    (hc' : shiftAmount r (e + c) = c') :
    roundWithAccuracy Format.binary64 s m e acc =
      if h : r / 2 ^ c' = 0 then .zero s
      else .finite s (r / 2 ^ c') (e + c + c') (Nat.pos_of_ne_zero h) := by
  have hmantissa := ((StandsFor.exact r).shiftRight one_pos c').mantissa_eq
  rw [Nat.one_mul] at hmantissa
  rw [← (h.shiftRight hd c).roundedMantissa_eq] at hr
  subst hc hr hc'
  simp only [← hmantissa]
  rfl

namespace HasUnits

variable {a b : UnpackedFloat} {u v : Nat}

/-- **A rounded mantissa** has the rounded number of units. The exponent is counted from that of the
squared unit. -/
theorem round {n i : Nat} (hn : 0 < n) (hi : i ≤ 1074 + excess (n * 2 ^ i)) :
    HasUnits (roundWithAccuracy Format.binary64 .positive n (i - 2148) .exact)
      (roundedUnits (n * 2 ^ i)) := by
  have hexcess := excess_mul_two_pow hn i
  have hspacing : unitsPerOne * 2 ^ excess (n * 2 ^ i) =
      2 ^ (1074 + excess (n * 2 ^ i) - i) * 2 ^ i := by
    rw [unitsPerOne, ← pow_add, ← pow_add, Nat.sub_add_cancel hi]
  have hup := nearest_le_pow (n * 2 ^ i)
  have hdown := pow_le_nearest (n := n * 2 ^ i)
  unfold roundedUnits
  rw [hspacing, nearest_mul_mul (Nat.two_pow_pos i)] at hup hdown ⊢
  generalize excess (n * 2 ^ i) = k at *
  generalize hr : nearest n (2 ^ (1074 + k - i)) = r at *
  rw [← Nat.one_mul (2 ^ (1074 + k - i))] at hr
  have hc : shiftAmount n (i - 2148) = 1074 + k - i := by
    unfold shiftAmount
    omega
  have he : (i : Int) - 2148 + (1074 + k - i : Nat) = k - 1074 := by omega
  rcases hup.lt_or_eq with hlt | rfl
  · have hlog : r.log2 < 53 := by
      rcases Nat.eq_zero_or_pos r with rfl | hpos
      · decide
      · exact (Nat.log2_lt hpos.ne').mpr hlt
    have hc' : shiftAmount r ((i : Int) - 2148 + (1074 + k - i : Nat)) = 0 := by
      unfold shiftAmount
      omega
    rw [roundWithAccuracy_eq (.exact n) one_pos hc hr hc', pow_zero, Nat.div_one]
    split_ifs with hzero
    · rw [hzero, Nat.zero_mul]
      exact .zero
    · exact .of_eq ⟨Nat.pos_of_ne_zero hzero, hlt, by omega⟩ (by omega)
  · have hc' : shiftAmount (2 ^ 53) ((i : Int) - 2148 + (1074 + k - i : Nat)) = 1 := by
      unfold shiftAmount
      rw [Nat.log2_two_pow]
      omega
    rw [roundWithAccuracy_eq (.exact n) one_pos hc hr hc', dif_neg (by decide)]
    have hcarry : 2 ^ 53 * 2 ^ k = 2 ^ 53 / 2 ^ 1 * 2 ^ (k + 1) := by
      rw [pow_succ]
      omega
    rw [hcarry]
    exact .of_eq ⟨by decide, by decide, .inl (by decide)⟩ (by omega)

/-- **Products** are rounded products of units. -/
theorem mul (ha : HasUnits a u) (hb : HasUnits b v) :
    HasUnits (UnpackedFloat.mul Format.binary64 a b) (roundedUnits (u * v)) := by
  have hzero : roundedUnits 0 = 0 := by simp [roundedUnits, nearest, unitsPerOne_pos]
  cases ha with
  | zero =>
    rw [Nat.zero_mul, hzero]
    cases hb <;> exact .zero
  | @finite m j h =>
    cases hb with
    | zero =>
      rw [Nat.mul_zero, hzero]
      exact .zero
    | @finite m' j' h' =>
      have hpos : 0 < m * m' := Nat.mul_pos h.pos h'.pos
      have hunits : m * 2 ^ j * (m' * 2 ^ j') = m * m' * 2 ^ (j + j') := by ring
      have hi : j + j' ≤ 1074 + excess (m * m' * 2 ^ (j + j')) := by
        have hfull : 2 ^ 52 ≤ m * m' ∨ j + j' = 0 := by
          rcases h.full with hfull | rfl
          · exact .inl (hfull.trans (Nat.le_mul_of_pos_right m h'.pos))
          · rcases h'.full with hfull | rfl
            · exact .inl (hfull.trans (Nat.le_mul_of_pos_left m' h.pos))
            · exact .inr rfl
        rw [excess_mul_two_pow hpos]
        rcases hfull with hfull | hleast
        · have hlog := (Nat.le_log2 hpos.ne').mpr hfull
          omega
        · omega
      have hexponent : (j : Int) - 1074 + (j' - 1074) = (j + j' : Nat) - 2148 := by omega
      rw [hunits]
      show HasUnits (roundWithAccuracy Format.binary64 .positive (m * m')
        ((j : Int) - 1074 + (j' - 1074)) .exact) _
      rw [hexponent]
      exact round hpos hi

/-- **No more units than a double has** are packed faithfully. -/
theorem unpack_pack (ha : HasUnits a u) {x : Float} (hx : HasUnits x.toModel.unpack v)
    (hle : u ≤ v) : unpack Format.binary64 (pack Format.binary64 a) = a := by
  cases ha with
  | zero => exact unpack_packedZero
  | @finite m j h =>
    refine h.unpack_pack ?_ .positive
    by_contra hlarge
    generalize hb : x.toModel.unpack = b at hx
    cases hx with
    | zero => exact hle.not_gt (Nat.mul_pos h.pos (Nat.two_pow_pos j))
    | @finite m' j' h' =>
      obtain ⟨k, hexponent, hk, -⟩ := exists_normalForm hb
      exact hle.not_gt (h.mul_lt h'.lt (by omega))

/-- **Products of doubles**, if they do not exceed the first factor. -/
theorem mul_float {x y : Float} (hx : HasUnits x.toModel.unpack u)
    (hy : HasUnits y.toModel.unpack v) (hle : roundedUnits (u * v) ≤ u) :
    HasUnits (x * y).toModel.unpack (roundedUnits (u * v)) := by
  have hmul := hx.mul hy
  have hpack : (x * y).toModel.unpack = unpack Format.binary64 (pack Format.binary64
      (UnpackedFloat.mul Format.binary64 x.toModel.unpack y.toModel.unpack)) := rfl
  rw [hpack, hmul.unpack_pack hx hle]
  exact hmul

end HasUnits

/-! ## Numbers above others -/

/-- Zeros and negative numbers are not above a double with units. -/
theorem HasUnits.le_of_place {a b : UnpackedFloat} {v : Nat} (hb : HasUnits b v)
    (ha : a ≠ .notANumber) (hplace : place a ≤ toLex (0, toLex (0, 0))) : a.le b = true := by
  rw [le_iff_place]
  cases hb with
  | zero => exact ⟨ha, by simp, hplace⟩
  | finite h => exact ⟨ha, by simp, hplace.trans (by simp [place, Prod.Lex.toLex_le_toLex])⟩

/-- **What is above** a double with units has units itself, and more of them. -/
theorem hasUnits_units {x y : Float} {v : Nat} (hx : Scalar.isFinite x = true)
    (hy : HasUnits y.toModel.unpack v) (h : Scalar.le x y = false) :
    HasUnits x.toModel.unpack (units x) ∧ v < units x := by
  have hle : x.toModel.unpack.le y.toModel.unpack = false :=
    Bool.eq_false_iff.mpr fun htrue => Bool.eq_false_iff.mp h (Scalar.le_float.mpr htrue)
  have hfinite : x.toModel.unpack.isFinite = true := hx
  obtain ⟨u, hu⟩ : ∃ u, HasUnits x.toModel.unpack u := by
    generalize ha : x.toModel.unpack = a at hle hfinite
    obtain _ | _ | (_ | _) | ⟨_ | _, m, e, hm⟩ := a
    · cases hfinite
    · cases hfinite
    · rw [hy.le_of_place (by simp) (by simp [place])] at hle
      cases hle
    · exact ⟨0, .zero⟩
    · rw [hy.le_of_place (by simp) (by simp [place, Prod.Lex.toLex_le_toLex])] at hle
      cases hle
    · obtain ⟨j, hexponent, -, hform⟩ := exists_normalForm ha
      exact ⟨_, .of_eq hform hexponent⟩
  obtain rfl : units x = u := hu.unitsOf_eq
  refine ⟨hu, Nat.lt_of_not_le fun hge => ?_⟩
  rw [(hu.le_iff hy).mpr hge] at hle
  cases hle

theorem hasUnits_zero : HasUnits (0.0 : Float).toModel.unpack 0 := .zero

theorem normalForm_one : NormalForm (2 ^ 52) 1022 := ⟨by decide, by decide, .inl (by decide)⟩

theorem hasUnits_one : HasUnits (1.0 : Float).toModel.unpack unitsPerOne := by
  rw [unitsPerOne_eq (i := 52) (j := 1022) rfl]
  exact .finite normalForm_one

/-- **What is below one** is so by a unit of its own fifty-three bits. -/
theorem HasUnits.unitsPerOne_le {a : UnpackedFloat} {u : Nat} (ha : HasUnits a u)
    (hu : u < unitsPerOne) : unitsPerOne ≤ 2 ^ 53 * (unitsPerOne - u) := by
  cases ha with
  | zero =>
    rw [Nat.sub_zero]
    exact Nat.le_mul_of_pos_left _ (by decide)
  | @finite m j h =>
    have hj : j ≤ 1021 := by
      rw [unitsPerOne_eq (i := 52) (j := 1022) rfl] at hu
      have hnot : ¬(1022 < j ∨ 1022 = j ∧ 2 ^ 52 ≤ m) := fun hge =>
        hu.not_ge ((normalForm_one.le_iff h).mp hge)
      have hfull := h.full
      omega
    have hone : unitsPerOne = 2 ^ 53 * 2 ^ 1021 := unitsPerOne_eq rfl
    have hpow : 2 ^ j ≤ 2 ^ 1021 := pow_le_pow_right₀ one_le_two hj
    generalize 2 ^ 1021 = p at *
    have hsmall : m * 2 ^ j ≤ m * p := Nat.mul_le_mul_left m hpow
    have hnext : (m + 1) * p ≤ 2 ^ 53 * p := Nat.mul_le_mul_right p h.lt
    rw [Nat.add_one_mul] at hnext
    omega

end WeightedSat
