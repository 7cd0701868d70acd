import WeightedSat.Decimal.Shortest
import WeightedSat.Proofs.Double.Quotient

/-!
# Shortest decimals are close

The search for the coarsest grid comes to an end within its twenty places: at the last of them the
grid is finer than half of the last bit of the double, so the first point above the double lies in
the interval. The point that is found lies in the interval too, and what lies in the interval is
close to the double.

## Main results

* `Interval.exists_coarsest_eq`: the search finds a point if there is one at the last place
* `fine`: how fine the grid at the last place is, for all exponents
* `exists_shortest_eq`: the search ends with a point of the interval
* `close_of_contains`: the points of the interval are close
-/

namespace WeightedSat.Decimal

namespace Interval

variable {i : Interval} {k : Int} {d : Nat}

/-- **What is found** is a point of the interval, and not zero. -/
theorem contains_of_nearest? (h : i.nearest? k = some d) :
    0 < d ∧ i.contains (tenTo k.toNat) (tenTo (-k).toNat) d = true := by
  unfold nearest? at h
  dsimp only at h
  split at h
  · next hlower =>
    obtain rfl := Option.some.inj h
    simp only [Bool.and_eq_true, decide_eq_true_eq] at hlower
    exact hlower.1
  · split at h
    · next hupper =>
      obtain rfl := Option.some.inj h
      exact ⟨Nat.succ_pos _, hupper⟩
    · cases h

/-- On a grid that is finer than the way up, there is a point to be found. -/
theorem exists_nearest?_eq (hlow : i.low ≤ i.mid) (hden : 0 < i.den)
    (hfine : tenTo k.toNat * i.den + i.mid * tenTo (-k).toNat < i.high * tenTo (-k).toNat) :
    ∃ d, i.nearest? k = some d := by
  have hstep : 0 < tenTo k.toNat * i.den := Nat.mul_pos (Nat.pow_pos (by decide)) hden
  have hupper : i.contains (tenTo k.toNat) (tenTo (-k).toNat)
      (i.mid * tenTo (-k).toNat / (tenTo k.toNat * i.den) + 1) = true := by
    have hsplit := Nat.div_add_mod (i.mid * tenTo (-k).toNat) (tenTo k.toNat * i.den)
    have hrest := Nat.mod_lt (i.mid * tenTo (-k).toNat) hstep
    have hbelow : i.low * tenTo (-k).toNat ≤ i.mid * tenTo (-k).toNat :=
      Nat.mul_le_mul_right _ hlow
    have hnext (c : Nat) : (c + 1) * tenTo k.toNat * i.den =
        tenTo k.toNat * i.den * c + tenTo k.toNat * i.den := by ring
    unfold contains
    rw [hnext]
    split <;> simp only [Bool.and_eq_true, decide_eq_true_eq] <;> omega
  unfold nearest?
  dsimp only
  rw [hupper]
  split
  · exact ⟨_, rfl⟩
  · exact ⟨_, rfl⟩

/-- **The search** finds a point if there is one at the last place. -/
theorem exists_coarsest_eq {n : Nat} (h : ∃ d, i.nearest? (k - n) = some d) :
    ∃ k' d, i.coarsest n k = (k', d) ∧ k - n ≤ k' ∧ k' ≤ k ∧ i.nearest? k' = some d := by
  induction n generalizing k with
  | zero =>
    obtain ⟨d, hd⟩ := h
    rw [Int.ofNat_zero, Int.sub_zero] at hd
    refine ⟨k, d, ?_, by omega, le_rfl, hd⟩
    rw [coarsest, hd]
    rfl
  | succ n ih =>
    rw [coarsest]
    cases hk : i.nearest? k with
    | some d => exact ⟨k, d, rfl, by omega, le_rfl, hk⟩
    | none =>
      have hlast : k - (n + 1 : Nat) = k - 1 - n := by omega
      rw [hlast] at h ⊢
      obtain ⟨k', d, heq, hlow, hhigh, hd⟩ := ih h
      exact ⟨k', d, heq, hlow, by omega, hd⟩

end Interval

/-- **The grid is fine**: where the search ends at the place `k`, the numbers have so many bits that
the grid is finer than half of the last of fifty-three. -/
theorem fine : ∀ s : Fin 634,
    let k : Int := s.val - 344
    let e : Int := ((k + 19) * 100000 + 30102) / 30103 - 54
    tenTo k.toNat * twoTo (-e).toNat < twoTo e.toNat * tenTo (-k).toNat := by
  decide +kernel

theorem twoTo_add (i j : Nat) : twoTo (i + j) = twoTo i * twoTo j := Nat.pow_add 2 i j

/-- A grid that is finer than a power of two is finer than half of the double of a larger one. -/
theorem fine_of_le {a b : Nat} {e q : Int} (he : e ≤ q - 1)
    (h : a * twoTo (-e).toNat < twoTo e.toNat * b) :
    a * twoTo (2 - q).toNat < 2 * twoTo (q - 2).toNat * b := by
  have hpos (n : Nat) : 0 < twoTo n := Nat.two_pow_pos n
  have hexponent : twoTo (e.toNat + (2 - q).toNat) ≤ twoTo (1 + (q - 2).toNat + (-e).toNat) :=
    Nat.pow_le_pow_right two_pos (by omega)
  rw [twoTo_add, twoTo_add, twoTo_add] at hexponent
  have hscaled : a * twoTo (2 - q).toNat * twoTo (-e).toNat <
      2 * twoTo (q - 2).toNat * b * twoTo (-e).toNat := by
    calc a * twoTo (2 - q).toNat * twoTo (-e).toNat
      _ = a * twoTo (-e).toNat * twoTo (2 - q).toNat := Nat.mul_right_comm _ _ _
      _ < twoTo e.toNat * b * twoTo (2 - q).toNat := Nat.mul_lt_mul_of_pos_right h (hpos _)
      _ = twoTo e.toNat * twoTo (2 - q).toNat * b := Nat.mul_right_comm _ _ _
      _ ≤ twoTo 1 * twoTo (q - 2).toNat * twoTo (-e).toNat * b := Nat.mul_le_mul_right b hexponent
      _ = 2 * twoTo (q - 2).toNat * b * twoTo (-e).toNat := Nat.mul_right_comm _ _ _
  exact Nat.lt_of_mul_lt_mul_right hscaled

section Double

variable {m j : Nat} (hform : NormalForm m j) (hj : j ≤ 2045)
include hform hj

/-- The place where the search ends. -/
theorem topPlace_bounds :
    -343 ≤ topPlace m (j - 1074) - 20 ∧ topPlace m (j - 1074) - 20 ≤ 289 ∧
      ((topPlace m (j - 1074) - 20 + 19) * 100000 + 30102) / 30103 - 54 ≤ (j : Int) - 1074 - 1 := by
  have hlog : m.log2 < 53 := (Nat.log2_lt hform.pos.ne').mpr hform.lt
  unfold topPlace
  omega

/-- There is a point to be found at this place. -/
theorem exists_nearest?_last :
    ∃ d, (Interval.around m (j - 1074)).nearest? (topPlace m (j - 1074) - (20 : Nat)) = some d := by
  obtain ⟨hlow, hhigh, hbits⟩ := topPlace_bounds hform hj
  show ∃ d, (Interval.around m (j - 1074)).nearest? (topPlace m (j - 1074) - 20) = some d
  generalize topPlace m (j - 1074) - 20 = k at *
  have hk : ((k + 344).toNat : Int) - 344 = k := by omega
  have hfine := fine ⟨(k + 344).toNat, by omega⟩
  simp only [hk] at hfine
  have hgrid := fine_of_le hbits hfine
  refine Interval.exists_nearest?_eq ?_ (Nat.two_pow_pos _) ?_
  · exact Nat.mul_le_mul_right _ (Nat.sub_le _ _)
  · show tenTo k.toNat * twoTo (2 - ((j : Int) - 1074)).toNat +
      4 * m * twoTo ((j : Int) - 1074 - 2).toNat * tenTo (-k).toNat <
        (4 * m + 2) * twoTo ((j : Int) - 1074 - 2).toNat * tenTo (-k).toNat
    rw [Nat.add_mul, Nat.add_mul]
    omega

/-- **The search ends** with a point of the interval. -/
theorem exists_shortest_eq :
    ∃ (k : Int) (d : Nat), shortest m (j - 1074) = (k, d) ∧ -343 ≤ k ∧ 0 < d ∧
      (Interval.around m (j - 1074)).contains (tenTo k.toNat) (tenTo (-k).toNat) d = true := by
  obtain ⟨k, d, heq, hk, -, hd⟩ := Interval.exists_coarsest_eq (exists_nearest?_last hform hj)
  obtain ⟨hpos, hcontains⟩ := Interval.contains_of_nearest? hd
  obtain ⟨hlow, -⟩ := topPlace_bounds hform hj
  exact ⟨k, d, heq, hlow.trans hk, hpos, hcontains⟩

end Double

/-- The interval counts in quarters of the last bit, and closeness in units. -/
theorem twoTo_eq (j : Nat) : 2 ^ j * twoTo (2 - ((j : Int) - 1074)).toNat =
    4 * unitsPerOne * twoTo ((j : Int) - 1074 - 2).toNat := by
  have hsum : j + (2 - ((j : Int) - 1074)).toNat = 2 + 1074 + ((j : Int) - 1074 - 2).toNat := by
    omega
  have htwo (n : Nat) : twoTo n = 2 ^ n := rfl
  have hfour : 2 ^ 2 = 4 := rfl
  rw [htwo, htwo, ← pow_add, hsum, pow_add, pow_add, hfour, unitsPerOne]

/-- **The points of the interval** are close to the double. -/
theorem close_of_contains {m j d : Nat} {k : Int} (h : (Interval.around m (j - 1074)).contains
      (tenTo k.toNat) (tenTo (-k).toNat) d = true) :
    Close m j (d * tenTo k.toNat * unitsPerOne) (tenTo (-k).toNat) := by
  have hscale := twoTo_eq j
  have hpos : 0 < twoTo (2 - ((j : Int) - 1074)).toNat := Nat.two_pow_pos _
  have hbit : hiddenBit = 2 ^ 52 := rfl
  unfold Interval.contains Interval.around at h
  unfold Close
  dsimp only at h ⊢
  rw [hbit] at h
  generalize (4 * m - if m = 2 ^ 52 then 1 else 2) = low at *
  generalize 4 * m + 2 = high at *
  generalize twoTo (2 - ((j : Int) - 1074)).toNat = t at *
  generalize twoTo ((j : Int) - 1074 - 2).toNat = s at *
  generalize tenTo (-k).toNat = b at *
  generalize d * tenTo k.toNat = n at *
  have hfour : 0 < 4 * unitsPerOne := Nat.mul_pos (by decide) unitsPerOne_pos
  have hleft (c : Nat) : c * (2 ^ j * b) * t = 4 * unitsPerOne * (c * s * b) := by
    calc c * (2 ^ j * b) * t
      _ = c * b * (2 ^ j * t) := by ring
      _ = c * b * (4 * unitsPerOne * s) := by rw [hscale]
      _ = 4 * unitsPerOne * (c * s * b) := by ring
  have hright : 4 * (n * unitsPerOne) * t = 4 * unitsPerOne * (n * t) := by ring
  have hle (c : Nat) : c * (2 ^ j * b) ≤ 4 * (n * unitsPerOne) ↔ c * s * b ≤ n * t := by
    rw [← Nat.mul_le_mul_right_iff hpos, hleft, hright, Nat.mul_le_mul_left_iff hfour]
  have hge (c : Nat) : 4 * (n * unitsPerOne) ≤ c * (2 ^ j * b) ↔ n * t ≤ c * s * b := by
    rw [← Nat.mul_le_mul_right_iff hpos, hleft, hright, Nat.mul_le_mul_left_iff hfour]
  split at h
  · next heven =>
    simp only [Bool.and_eq_true, decide_eq_true_eq] at h heven
    exact .inr ⟨heven, (hle low).mpr h.1, (hge high).mpr h.2⟩
  · simp only [Bool.and_eq_true, decide_eq_true_eq] at h
    rw [← Nat.not_le, ← Nat.not_le] at h
    exact .inl ⟨Nat.not_le.mp ((hge low).not.mpr h.1), Nat.not_le.mp ((hle high).not.mpr h.2)⟩

end WeightedSat.Decimal
