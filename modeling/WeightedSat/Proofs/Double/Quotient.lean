import WeightedSat.Proofs.Double.Units

/-!
# Rounding quotients

A quotient of whole numbers of units is rounded to the double that it is close to: not further from
it than half way to the doubles on either side, and if it is half way, then the mantissa is even.
The double above is one unit of the last bit away. So is the one below, unless the mantissa is the
least one with all its bits; then it is half as far away, and a quotient between the two has one bit
more before it is rounded, and carries.

Products and quotients of unpacked doubles are such quotients, of mantissas and of powers of two,
and so they are rounded correctly: the result is the double to which the exact number is close.

## Main definitions

* `Close m j a b`: the quotient `a / b` of units is close to a double in normal form

## Main results

* `Close.nearest_eq`: what a close quotient is rounded to, at the place where its bits end
* `Close.round_eq`: a mantissa that stands for a close quotient
* `Close.mul_eq`, `Close.div_eq`: products and quotients
-/

namespace WeightedSat

open Float.Model (UnpackedFloat Format)
open Float.Model.UnpackedFloat

theorem nearest_eq_of_mul_eq {n d a b : Nat} (hd : 0 < d) (hb : 0 < b) (h : n * b = a * d) :
    nearest n d = nearest a b := by
  rw [← nearest_mul_mul hb n d, h, Nat.mul_comm d b, nearest_mul_mul hd a b]

/-- **What is rounded to a number**: what is less than a half away from it, and what is half a unit
away if the number is even. -/
theorem nearest_eq_of_between {a d c : Nat} (hd : 0 < d) (hc : 0 < c)
    (h : (2 * c - 1) * d < 2 * a ∧ 2 * a < (2 * c + 1) * d ∨
      c % 2 = 0 ∧ (2 * c - 1) * d ≤ 2 * a ∧ 2 * a ≤ (2 * c + 1) * d) : nearest a d = c := by
  obtain ⟨e, rfl⟩ := Nat.exists_eq_add_one_of_ne_zero hc.ne'
  have hbelow := lt_nearest_iff hd a e
  have habove := lt_nearest_iff hd a (e + 1)
  have hlow : 2 * (e + 1) - 1 = 2 * e + 1 := by omega
  have hhigh : (2 * (e + 1) + 1) * d = (2 * e + 1) * d + 2 * d := by ring
  rw [hlow] at h
  rw [hhigh] at h habove
  generalize (2 * e + 1) * d = x at *
  omega

/-- **Close**: a quotient of units is not further from `m · 2 ^ j` units than half way to the next
double, on both sides, and nearer than that if `m` is odd. -/
def Close (m j a b : Nat) : Prop :=
  let low := (4 * m - if m = 2 ^ 52 then 1 else 2) * (2 ^ j * b)
  let high := (4 * m + 2) * (2 ^ j * b)
  low < 4 * a ∧ 4 * a < high ∨ m % 2 = 0 ∧ low ≤ 4 * a ∧ 4 * a ≤ high

namespace StandsFor

/-- A whole part with the accuracy of the rest stands for the quotient. -/
theorem accuracyOfFraction {n d : Nat} (hd : 0 < d) :
    StandsFor (ExtendedMantissa.ofMantissaAndAccuracy (n / d)
      (UnpackedFloat.accuracyOfFraction (n % d) d)) n d := by
  unfold UnpackedFloat.accuracyOfFraction
  split
  · next hzero =>
    constructor
    · rfl
    · simp [ExtendedMantissa.ofMantissaAndAccuracy, hzero, hd.ne']
    · simp [ExtendedMantissa.ofMantissaAndAccuracy, hzero]
  · next hne =>
    rcases Nat.lt_trichotomy (2 * (n % d)) d with hlt | heq | hgt
    · rw [Nat.compare_eq_lt.mpr hlt]
      constructor <;> simp [ExtendedMantissa.ofMantissaAndAccuracy] <;> omega
    · rw [Nat.compare_eq_eq.mpr heq]
      constructor <;> simp [ExtendedMantissa.ofMantissaAndAccuracy] <;> omega
    · rw [Nat.compare_eq_gt.mpr hgt]
      constructor <;> simp [ExtendedMantissa.ofMantissaAndAccuracy] <;> omega

end StandsFor

/-- What is not below one has an exponent that is not below that of one. -/
theorem NormalForm.le_of_unitsPerOne_le {m j : Nat} (h : NormalForm m j)
    (hle : unitsPerOne ≤ m * 2 ^ j) : 1022 ≤ j := by
  by_contra hlt
  have hless := normalForm_one.mul_lt h.lt (Nat.lt_of_not_le hlt)
  rw [← unitsPerOne_eq (show 52 + 1022 = 1074 from rfl)] at hless
  exact hle.not_gt hless

/-! ## Where the bits of a quotient end -/

section Place

variable {a b d n i k : Nat}

/-- A quotient of which no bit is above the fifty-three that end at a place. -/
theorem lt_of_log2 (hb : 0 < b) (hd : 0 < d) (heq : n * (2 ^ i * b) = a * d)
    (hk : (n / d).log2 + i ≤ 52 + k) : a < 2 ^ 53 * (2 ^ k * b) := by
  have hn : n < 2 ^ ((n / d).log2 + 1) * d := (Nat.div_lt_iff_lt_mul hd).mp Nat.lt_log2_self
  refine Nat.lt_of_mul_lt_mul_right (a := d) ?_
  calc a * d
    _ = n * (2 ^ i * b) := heq.symm
    _ < 2 ^ ((n / d).log2 + 1) * d * (2 ^ i * b) :=
      Nat.mul_lt_mul_of_pos_right hn (Nat.mul_pos (Nat.two_pow_pos i) hb)
    _ = 2 ^ ((n / d).log2 + 1 + i) * (b * d) := by ring
    _ ≤ 2 ^ (53 + k) * (b * d) :=
      Nat.mul_le_mul_right _ (Nat.pow_le_pow_right two_pos (by omega))
    _ = 2 ^ 53 * (2 ^ k * b) * d := by ring

/-- A quotient of which the first of these bits is one. -/
theorem le_of_log2 (hd : 0 < d) (heq : n * (2 ^ i * b) = a * d) (hne : n / d ≠ 0)
    (hk : 52 + k = (n / d).log2 + i) : 2 ^ 52 * (2 ^ k * b) ≤ a := by
  have hn : 2 ^ (n / d).log2 * d ≤ n :=
    le_trans (Nat.mul_le_mul_right d (Nat.log2_self_le hne)) (Nat.div_mul_le_self n d)
  refine Nat.le_of_mul_le_mul_right ?_ hd
  calc 2 ^ 52 * (2 ^ k * b) * d
    _ = 2 ^ (52 + k) * (b * d) := by ring
    _ = 2 ^ ((n / d).log2 + i) * (b * d) := by rw [hk]
    _ = 2 ^ (n / d).log2 * d * (2 ^ i * b) := by ring
    _ ≤ n * (2 ^ i * b) := Nat.mul_le_mul_right _ hn
    _ = a * d := heq

end Place

/-! ## Close quotients -/

namespace Close

variable {m j a b k : Nat}

/-- A double is close to itself. -/
theorem exact (hm : 0 < m) (j : Nat) : Close m j (m * 2 ^ j) 1 := by
  have hd : 0 < 2 ^ j * 1 := Nat.mul_pos (Nat.two_pow_pos j) one_pos
  have hmid : 4 * (m * 2 ^ j) = 4 * m * (2 ^ j * 1) := by ring
  unfold Close
  rw [hmid]
  refine .inl ⟨Nat.mul_lt_mul_of_pos_right ?_ hd, Nat.mul_lt_mul_of_pos_right (by omega) hd⟩
  split_ifs <;> omega

theorem low_le (h : Close m j a b) :
    (4 * m - if m = 2 ^ 52 then 1 else 2) * (2 ^ j * b) ≤ 4 * a := by
  rcases h with h | h
  · exact h.1.le
  · exact h.2.1

theorem le_high (h : Close m j a b) : 4 * a ≤ (4 * m + 2) * (2 ^ j * b) := by
  rcases h with h | h
  · exact h.2.le
  · exact h.2.2

/-- At its own place the quotient is rounded to the mantissa. -/
theorem nearest_self (h : Close m j a b) (hm : 0 < m) (hb : 0 < b) : nearest a (2 ^ j * b) = m := by
  have hd : 0 < 2 ^ j * b := Nat.mul_pos (Nat.two_pow_pos j) hb
  refine nearest_eq_of_between hd hm ?_
  unfold Close at h
  generalize 2 ^ j * b = d at *
  have hup : (4 * m + 2) * d = 2 * ((2 * m + 1) * d) := by ring
  have hdown : 2 * ((2 * m - 1) * d) ≤ (4 * m - if m = 2 ^ 52 then 1 else 2) * d := by
    rw [← Nat.mul_assoc]
    refine Nat.mul_le_mul_right d ?_
    split_ifs <;> omega
  dsimp only at h
  generalize (4 * m - if m = 2 ^ 52 then 1 else 2) * d = low at *
  omega

/-- If fifty-three bits of the quotient end at a place, it is not above that of the double. -/
theorem place_le (h : Close m j a b) (hm : m < 2 ^ 53) (hb : 0 < b)
    (hle : 2 ^ 52 * (2 ^ k * b) ≤ a ∨ k = 0) : k ≤ j := by
  by_contra hjk
  have hhigh := h.le_high
  have hpow : 2 * (2 ^ j * b) ≤ 2 ^ k * b := by
    rw [← Nat.mul_assoc]
    refine Nat.mul_le_mul_right b ?_
    rw [← Nat.pow_succ']
    exact Nat.pow_le_pow_right two_pos (Nat.lt_of_not_le hjk)
  have hbound : (4 * m + 2) * (2 ^ j * b) ≤ (2 ^ 55 - 2) * (2 ^ j * b) :=
    Nat.mul_le_mul_right _ (by omega)
  have hpos : 0 < 2 ^ j * b := Nat.mul_pos (Nat.two_pow_pos j) hb
  have hlarge := hle.resolve_right (by omega)
  omega

/-- **Carrying**: if no more than fifty-three bits of the quotient end below the place of the
double, then right below it, and the quotient is rounded to a power of two. -/
theorem carries (h : Close m j a b) (hform : NormalForm m j) (hb : 0 < b)
    (hlt : a < 2 ^ 53 * (2 ^ k * b)) (hkj : k < j) :
    k + 1 = j ∧ m = 2 ^ 52 ∧ nearest a (2 ^ k * b) = 2 ^ 53 := by
  have hlow := h.low_le
  have hd : 0 < 2 ^ k * b := Nat.mul_pos (Nat.two_pow_pos k) hb
  obtain ⟨t, rfl⟩ := Nat.exists_eq_add_of_lt hkj
  have hfull : 2 ^ 52 ≤ m := hform.full.resolve_right (by omega)
  have hspacing : 2 ^ (k + t + 1) * b = 2 ^ t * (2 * (2 ^ k * b)) := by ring
  rw [hspacing] at hlow
  generalize 2 ^ k * b = d at *
  obtain rfl : t = 0 := by
    by_contra hne
    have htwo : 2 ≤ 2 ^ t := Nat.le_self_pow hne 2
    have hfour : (2 ^ 54 - 2) * (2 * (2 * d)) ≤ 4 * a := by
      refine le_trans (Nat.mul_le_mul ?_ (Nat.mul_le_mul_right _ htwo)) hlow
      split_ifs <;> omega
    omega
  obtain rfl : m = 2 ^ 52 := by
    by_contra hne
    have hmore : (2 ^ 54 + 2) * (2 * d) ≤ 4 * a := by
      refine le_trans (Nat.mul_le_mul ?_ (Nat.le_of_eq (Nat.one_mul _).symm)) hlow
      rw [if_neg hne]
      omega
    omega
  rw [if_pos rfl, Nat.pow_zero, Nat.one_mul] at hlow
  refine ⟨rfl, rfl, nearest_eq_of_between hd (by decide) (.inr ⟨by decide, ?_, ?_⟩)⟩
  · omega
  · omega

/-- **What a close quotient is rounded to**, at the place where fifty-three of its bits end: the
mantissa, or a power of two that carries into it. -/
theorem nearest_eq (h : Close m j a b) (hform : NormalForm m j) (hb : 0 < b)
    (hlt : a < 2 ^ 53 * (2 ^ k * b)) (hle : 2 ^ 52 * (2 ^ k * b) ≤ a ∨ k = 0) :
    k = j ∧ nearest a (2 ^ k * b) = m ∨
      k + 1 = j ∧ m = 2 ^ 52 ∧ nearest a (2 ^ k * b) = 2 ^ 53 := by
  rcases Nat.lt_or_eq_of_le (h.place_le hform.lt hb hle) with hkj | rfl
  · exact .inr (h.carries hform hb hlt hkj)
  · exact .inl ⟨rfl, h.nearest_self hform.pos hb⟩

/-- **A mantissa that stands for a close quotient** is rounded to the double, if it has all bits or
its exponent is the least. -/
theorem round_eq {n d c i : Nat} {acc : Accuracy} (h : Close m j a b)
    (hform : NormalForm m j) (hb : 0 < b) (hd : 0 < d)
    (hstands : StandsFor (ExtendedMantissa.ofMantissaAndAccuracy c acc) n d)
    (heq : n * (2 ^ i * b) = a * d) (hbits : 2 ^ 52 ≤ c ∨ i = 0) :
    roundWithAccuracy Format.binary64 .positive c (i - 1074) acc =
      .finite .positive m (j - 1074) hform.pos := by
  obtain rfl : c = n / d := by
    rw [← hstands.mantissa_eq]
    rcases acc with _ | (_ | _ | _) <;> rfl
  have hlog : i = 0 ∨ 52 ≤ (n / d).log2 :=
    hbits.symm.imp_right fun hc => (Nat.le_log2 (by omega)).mpr hc
  -- The shift takes the mantissa to the place where its fifty-three bits end.
  obtain ⟨t, ht⟩ : ∃ t, i + t = (n / d).log2 + i - 52 :=
    ⟨(n / d).log2 + i - 52 - i, by omega⟩
  have hshift : shiftAmount (n / d) (i - 1074) = t := by
    unfold shiftAmount
    omega
  have hnearest : nearest n (d * 2 ^ t) = nearest a (2 ^ (i + t) * b) := by
    refine nearest_eq_of_mul_eq (Nat.mul_pos hd (Nat.two_pow_pos t))
      (Nat.mul_pos (Nat.two_pow_pos _) hb) ?_
    rw [pow_add, Nat.mul_right_comm, ← Nat.mul_assoc, heq, Nat.mul_assoc]
  have hlt : a < 2 ^ 53 * (2 ^ (i + t) * b) := lt_of_log2 hb hd heq (by omega)
  have hle : 2 ^ 52 * (2 ^ (i + t) * b) ≤ a ∨ i + t = 0 := by
    refine or_iff_not_imp_right.mpr fun hne => le_of_log2 hd heq ?_ (by omega)
    intro hzero
    rw [hzero, Nat.log2_zero] at hlog ht
    omega
  have hlog2 : m.log2 < 53 := (Nat.log2_lt hform.pos.ne').mpr hform.lt
  rcases h.nearest_eq hform hb hlt hle with ⟨rfl, hr⟩ | ⟨rfl, rfl, hr⟩
  · have hagain : shiftAmount m ((i : Int) - 1074 + t) = 0 := by
      unfold shiftAmount
      omega
    rw [roundWithAccuracy_eq hstands hd hshift (hnearest.trans hr) hagain]
    simp only [pow_zero, Nat.div_one, dif_neg hform.pos.ne']
    congr 1
    omega
  · have hagain : shiftAmount (2 ^ 53) ((i : Int) - 1074 + t) = 1 := by
      unfold shiftAmount
      rw [Nat.log2_two_pow]
      omega
    rw [roundWithAccuracy_eq hstands hd hshift (hnearest.trans hr) hagain, dif_neg (by decide)]
    congr 1
    omega

/-! ## Products and quotients -/

section Operations

variable {m₁ m₂ : Nat} {e₁ e₂ : Int} {h₁ : 0 < m₁} {h₂ : 0 < m₂}

/-- **Products** that are close to a double are that double. -/
theorem mul_eq {i : Nat} (h : Close m j a b) (hform : NormalForm m j) (hb : 0 < b)
    (he : e₁ + e₂ = i - 1074) (heq : m₁ * m₂ * (2 ^ i * b) = a) (hbits : 2 ^ 52 ≤ m₁ * m₂) :
    UnpackedFloat.mul Format.binary64 (.finite .positive m₁ e₁ h₁) (.finite .positive m₂ e₂ h₂) =
      .finite .positive m (j - 1074) hform.pos := by
  have hround := h.round_eq hform hb one_pos (.exact (m₁ * m₂)) (heq.trans (Nat.mul_one a).symm)
    (.inl hbits)
  rw [← he] at hround
  exact hround

/-- **Quotients** that are close to a double are that double. -/
theorem div_eq {x : Nat} (h : Close m j a b) (hform : NormalForm m j) (hb : 0 < b)
    (he : e₁ - e₂ = x - 1074) (heq : m₁ * (2 ^ x * b) = a * m₂) :
    UnpackedFloat.div Format.binary64 (.finite .positive m₁ e₁ h₁) (.finite .positive m₂ e₂ h₂) =
      .finite .positive m (j - 1074) hform.pos := by
  -- The dividend is shifted so far that the quotient has all its bits, if that is possible.
  obtain ⟨i, hi⟩ : ∃ i, i = min x (m₁.log2 + x - m₂.log2 - 53) := ⟨_, rfl⟩
  obtain ⟨t, ht⟩ : ∃ t, x = i + t := ⟨x - i, by omega⟩
  have htarget : min (e₁ - e₂) (Format.binary64.targetExponent
      (Float.Model.totalExponent m₁ e₁ - Float.Model.totalExponent m₂ e₂)) = i - 1074 := by
    show min (e₁ - e₂) (max ((m₁.log2 : Int) + 1 + e₁ - (m₂.log2 + 1 + e₂) - 53) (-1074)) = i - 1074
    omega
  have hcore : divCore Format.binary64 m₁ e₁ m₂ e₂ = (m₁ * 2 ^ t / m₂, (i : Int) - 1074,
      UnpackedFloat.accuracyOfFraction (m₁ * 2 ^ t % m₂) m₂) := by
    have hshift : (e₁ - e₂ - ((i : Int) - 1074)).toNat = t := by omega
    unfold divCore
    simp only [htarget, hshift, Nat.shiftLeft_eq]
  have hbits : 2 ^ 52 ≤ m₁ * 2 ^ t / m₂ ∨ i = 0 := by
    refine or_iff_not_imp_right.mpr fun hne => (Nat.le_div_iff_mul_le h₂).mpr ?_
    calc 2 ^ 52 * m₂
      _ ≤ 2 ^ 52 * 2 ^ (m₂.log2 + 1) := Nat.mul_le_mul_left _ Nat.lt_log2_self.le
      _ = 2 ^ (52 + (m₂.log2 + 1)) := (pow_add 2 52 _).symm
      _ ≤ 2 ^ (m₁.log2 + t) := Nat.pow_le_pow_right two_pos (by omega)
      _ = 2 ^ m₁.log2 * 2 ^ t := pow_add 2 _ t
      _ ≤ m₁ * 2 ^ t := Nat.mul_le_mul_right _ (Nat.log2_self_le h₁.ne')
  have hsame : m₁ * 2 ^ t * (2 ^ i * b) = a * m₂ := by
    rw [← heq, ht]
    ring
  have hround := h.round_eq hform hb h₂ (.accuracyOfFraction h₂) hsame hbits
  show (match divCore Format.binary64 m₁ e₁ m₂ e₂ with
    | (m, e, acc) => UnpackedFloat.roundWithAccuracy Format.binary64 .positive m e acc) = _
  rw [hcore]
  exact hround

end Operations

section Units

variable {x y : UnpackedFloat} {u v : Nat}

/-- **Factors** that are not below one. -/
theorem mul_of_hasUnits (h : Close m j a b) (hform : NormalForm m j) (hb : 0 < b)
    (hx : HasUnits x u) (hy : HasUnits y v) (hu : unitsPerOne ≤ u) (hv : unitsPerOne ≤ v)
    (heq : u * v * b = a * unitsPerOne) :
    UnpackedFloat.mul Format.binary64 x y = .finite .positive m (j - 1074) hform.pos := by
  cases hx with
  | zero => exact absurd hu (Nat.not_le_of_lt unitsPerOne_pos)
  | @finite m₁ j₁ h₁ =>
    cases hy with
    | zero => exact absurd hv (Nat.not_le_of_lt unitsPerOne_pos)
    | @finite m₂ j₂ h₂ =>
      have hj₁ := h₁.le_of_unitsPerOne_le hu
      have hj₂ := h₂.le_of_unitsPerOne_le hv
      obtain ⟨i, hi⟩ : ∃ i, j₁ + j₂ = i + 1074 := ⟨j₁ + j₂ - 1074, by omega⟩
      have hfull : 2 ^ 52 ≤ m₁ := h₁.full.resolve_right (by omega)
      refine h.mul_eq hform hb (i := i) (by omega) ?_
        (hfull.trans (Nat.le_mul_of_pos_right _ h₂.pos))
      have hpow : 2 ^ (i + 1074) = 2 ^ i * unitsPerOne := pow_add 2 i 1074
      refine Nat.mul_right_cancel unitsPerOne_pos ?_
      calc m₁ * m₂ * (2 ^ i * b) * unitsPerOne
        _ = m₁ * m₂ * 2 ^ (i + 1074) * b := by rw [hpow]; ring
        _ = m₁ * 2 ^ j₁ * (m₂ * 2 ^ j₂) * b := by rw [← hi, pow_add]; ring
        _ = a * unitsPerOne := heq

/-- **A dividend and a divisor** whose quotient is not below the unit. -/
theorem div_of_hasUnits (h : Close m j a b) (hform : NormalForm m j) (hb : 0 < b)
    (hx : HasUnits x u) (hy : HasUnits y v) (hv : 0 < v) (hle : v ≤ u * unitsPerOne)
    (heq : u * unitsPerOne * b = a * v) :
    UnpackedFloat.div Format.binary64 x y = .finite .positive m (j - 1074) hform.pos := by
  cases hx with
  | zero => omega
  | @finite m₁ j₁ h₁ =>
    cases hy with
    | zero => exact absurd hv (Nat.lt_irrefl 0)
    | @finite m₂ j₂ h₂ =>
      have hj : j₂ ≤ j₁ + 1074 := by
        by_contra hlt
        have hless := h₂.mul_lt h₁.lt (Nat.lt_of_not_le hlt)
        rw [pow_add, ← Nat.mul_assoc] at hless
        exact hle.not_gt hless
      obtain ⟨i, hi⟩ := Nat.exists_eq_add_of_le hj
      refine h.div_eq hform hb (x := i) (by omega) ?_
      refine Nat.mul_right_cancel (Nat.two_pow_pos j₂) ?_
      calc m₁ * (2 ^ i * b) * 2 ^ j₂
        _ = m₁ * 2 ^ (j₂ + i) * b := by rw [pow_add]; ring
        _ = m₁ * 2 ^ j₁ * unitsPerOne * b := by
          rw [← hi, pow_add, ← Nat.mul_assoc]
          rfl
        _ = a * m₂ * 2 ^ j₂ := by rw [heq, Nat.mul_assoc]

end Units

end Close

end WeightedSat
