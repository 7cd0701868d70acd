import Mathlib.Algebra.Order.Ring.Nat
import Mathlib.Data.Nat.Log
import Mathlib.Tactic.Ring

/-!
# Rounding in whole numbers

A double that is not negative is a whole multiple of the least positive one, the unit. A product of
two of them is a whole multiple of the square of that unit, and to round it to a double is to divide
by a power of two: the bits below the unit go, and as many more as leave fifty-three. The quotient
is rounded to the nearest whole number, and to the even one of two that are as near.

A factor below one takes something off a number. If what it takes off is less than half a unit, the
rounding puts it back, and if it is half a unit, the rounding puts it back on even numbers. Numbers
with more than fifty-three bits are rounded to more than a unit, but they also lose more, and they
never come back to themselves.

## Main definitions

* `nearest n d`: the quotient rounded, ties to even
* `roundedUnits n`: the units of the double nearest to `n` squared units
* `Stuck b u`: a factor that is `b` units below one takes too little off `u` units

## Main results

* `lt_nearest_iff`: which whole numbers are below a rounded quotient
* `le_roundedUnits_iff`: what is not decreased is stuck
* `roundedUnits_le`: nothing is increased
* `Stuck.le_roundedUnits`: no number above a stuck one is decreased below it
-/

namespace WeightedSat

/-! ## Quotients -/

/-- **Nearest**: a quotient, rounded to the nearest whole number, and to the even one of two that
are as near. -/
def nearest (n d : Nat) : Nat :=
  if 2 * (n % d) < d then n / d
  else if 2 * (n % d) = d then n / d + n / d % 2
  else n / d + 1

/-- **Which numbers are below** a rounded quotient: those whose upper half is not reached, and odd
ones whose upper half begins there. -/
theorem lt_nearest_iff {d : Nat} (hd : 0 < d) (n c : Nat) :
    c < nearest n d ↔ (2 * c + 1) * d < 2 * n ∨ (2 * c + 1) * d = 2 * n ∧ c % 2 = 1 := by
  unfold nearest
  have hsplit := Nat.mod_add_div n d
  have hlt := Nat.mod_lt n hd
  generalize n % d = r at *
  generalize n / d = q at *
  subst hsplit
  have hodd : (2 * c + 1) * d = 2 * (d * c) + d := by ring
  rcases Nat.lt_trichotomy c q with hcq | rfl | hqc
  · have hmul : d * (c + 1) ≤ d * q := Nat.mul_le_mul_left d hcq
    rw [Nat.mul_add_one] at hmul
    split_ifs <;> omega
  · split_ifs <;> omega
  · have hmul : d * (q + 1) ≤ d * c := Nat.mul_le_mul_left d hqc
    rw [Nat.mul_add_one] at hmul
    split_ifs <;> omega

theorem nearest_le_nearest {d m n : Nat} (hd : 0 < d) (h : m ≤ n) : nearest m d ≤ nearest n d := by
  by_contra hlt
  have hm := (lt_nearest_iff hd m _).mp (Nat.lt_of_not_le hlt)
  exact Nat.lt_irrefl _ ((lt_nearest_iff hd n _).mpr (by omega))

theorem nearest_mul_self {d : Nat} (hd : 0 < d) (c : Nat) : nearest (c * d) d = c := by
  rw [nearest, Nat.mul_mod_left, if_pos (by omega), Nat.mul_div_cancel c hd]

/-- A common factor does not matter. -/
theorem nearest_mul_mul {c : Nat} (hc : 0 < c) (n d : Nat) :
    nearest (n * c) (d * c) = nearest n d := by
  have hlt : 2 * (n % d * c) < d * c ↔ 2 * (n % d) < d := by
    rw [← Nat.mul_assoc, Nat.mul_lt_mul_right hc]
  have heq : 2 * (n % d * c) = d * c ↔ 2 * (n % d) = d := by
    rw [← Nat.mul_assoc, Nat.mul_left_inj hc.ne']
  simp only [nearest, Nat.mul_mod_mul_right, Nat.mul_div_mul_right n d hc, hlt, heq]

/-! ## Products -/

/-- The units in one. -/
def unitsPerOne : Nat := 2 ^ 1074

theorem unitsPerOne_pos : 0 < unitsPerOne := by
  rw [unitsPerOne]
  exact pow_pos two_pos 1074

theorem unitsPerOne_eq {i j : Nat} (h : i + j = 1074) : unitsPerOne = 2 ^ i * 2 ^ j := by
  rw [unitsPerOne, ← pow_add, h]

/-- The bits that a product of `n` squared units has above fifty-three, apart from those below the
unit. -/
def excess (n : Nat) : Nat := n.log2 - 1126

theorem excess_mul_two_pow {n : Nat} (hn : 0 < n) (i : Nat) :
    excess (n * 2 ^ i) = n.log2 + i - 1126 := by
  have hpos := Nat.two_pow_pos i
  have hlog : (n * 2 ^ i).log2 = n.log2 + i := by
    rw [Nat.log2_eq_iff (Nat.mul_pos hn hpos).ne', pow_add, Nat.add_right_comm, pow_add]
    exact ⟨Nat.mul_le_mul_right _ (Nat.log2_self_le hn.ne'),
      Nat.mul_lt_mul_of_pos_right Nat.lt_log2_self hpos⟩
  unfold excess
  rw [hlog]

/-- **Rounded units**: the units of the double nearest to `n` squared units. -/
def roundedUnits (n : Nat) : Nat := nearest n (unitsPerOne * 2 ^ excess n) * 2 ^ excess n

theorem le_of_excess_pos {n : Nat} (h : 0 < excess n) :
    2 ^ 52 * (unitsPerOne * 2 ^ excess n) ≤ n := by
  unfold excess at *
  have hn : n ≠ 0 := by
    rintro rfl
    rw [Nat.log2_zero] at h
    omega
  have hexponent : 52 + (1074 + (n.log2 - 1126)) = n.log2 := by omega
  rw [unitsPerOne, ← pow_add, ← pow_add, hexponent]
  exact Nat.log2_self_le hn

theorem lt_of_excess (n : Nat) : n < 2 ^ 53 * (unitsPerOne * 2 ^ excess n) := by
  have hexponent : n.log2 + 1 ≤ 53 + (1074 + excess n) := by
    unfold excess
    omega
  rw [unitsPerOne, ← pow_add, ← pow_add]
  exact Nat.lt_log2_self.trans_le (Nat.pow_le_pow_right two_pos hexponent)

theorem excess_eq_zero {n : Nat} (h : n < 2 ^ 52 * unitsPerOne) : excess n = 0 := by
  by_contra hne
  have hle := le_of_excess_pos (Nat.pos_of_ne_zero hne)
  have hmul : unitsPerOne ≤ unitsPerOne * 2 ^ excess n :=
    Nat.le_mul_of_pos_right _ (Nat.two_pow_pos _)
  omega

theorem spacing_pos (n : Nat) : 0 < unitsPerOne * 2 ^ excess n :=
  Nat.mul_pos unitsPerOne_pos (Nat.two_pow_pos _)

/-- A rounded quotient has fifty-three bits, or is the first number with more. -/
theorem nearest_le_pow (n : Nat) : nearest n (unitsPerOne * 2 ^ excess n) ≤ 2 ^ 53 := by
  have hle := nearest_le_nearest (spacing_pos n) (lt_of_excess n).le
  rwa [nearest_mul_self (spacing_pos n)] at hle

theorem pow_le_nearest {n : Nat} (h : 0 < excess n) :
    2 ^ 52 ≤ nearest n (unitsPerOne * 2 ^ excess n) := by
  have hle := nearest_le_nearest (spacing_pos n) (le_of_excess_pos h)
  rwa [nearest_mul_self (spacing_pos n)] at hle

theorem roundedUnits_of_lt {n : Nat} (h : n < 2 ^ 52 * unitsPerOne) :
    roundedUnits n = nearest n unitsPerOne := by
  rw [roundedUnits, excess_eq_zero h, pow_zero, Nat.mul_one, Nat.mul_one]

/-- With bits in excess, all fifty-three are there. -/
theorem le_roundedUnits_of_excess {n : Nat} (h : 0 < excess n) : 2 ^ 52 ≤ roundedUnits n :=
  (pow_le_nearest h).trans (Nat.le_mul_of_pos_right _ (Nat.two_pow_pos _))

/-! ## Factors below one -/

/-- **Stuck**: a factor that is `b` units below one takes less than half a unit off `u` units, or
half a unit and `u` is even. -/
def Stuck (b u : Nat) : Prop :=
  2 * (u * b) < unitsPerOne ∨ 2 * (u * b) = unitsPerOne ∧ u % 2 = 0

instance {b u : Nat} : Decidable (Stuck b u) := inferInstanceAs (Decidable (_ ∨ _))

section Factor

variable {a b u t : Nat}

theorem Stuck.mono (h : Stuck b u) (hb : 0 < b) (hle : t ≤ u) : Stuck b t := by
  rcases hle.eq_or_lt with rfl | hlt
  · exact h
  · have hmul : t * b < u * b := (Nat.mul_lt_mul_right hb).mpr hlt
    rcases h with h | ⟨h, -⟩ <;> exact .inl (by omega)

/-- A factor of fifty-three bits takes at least so much off. -/
theorem Stuck.le_pow (h : Stuck b u) (hb : unitsPerOne ≤ 2 ^ 53 * b) : u ≤ 2 ^ 52 := by
  have hpos : 0 < b := by
    have := unitsPerOne_pos
    omega
  have hmul : u * b ≤ 2 ^ 52 * b := by
    rcases h with h | ⟨h, -⟩ <;> omega
  exact Nat.le_of_mul_le_mul_right hmul hpos

variable (hab : a + b = unitsPerOne) (hb : unitsPerOne ≤ 2 ^ 53 * b)
include hab hb

theorem Stuck.mul_lt (h : Stuck b u) : u * a < 2 ^ 52 * unitsPerOne := by
  have hone := unitsPerOne_pos
  calc u * a
    _ ≤ 2 ^ 52 * a := Nat.mul_le_mul_right a (h.le_pow hb)
    _ < 2 ^ 52 * unitsPerOne := by omega

/-- **What is not decreased is stuck.** -/
theorem le_roundedUnits_iff (hu : 0 < u) : u ≤ roundedUnits (u * a) ↔ Stuck b u := by
  have hparts : u * a + u * b = u * unitsPerOne := by rw [← Nat.mul_add, hab]
  by_cases hexcess : 0 < excess (u * a)
  · refine iff_of_false (fun hle => ?_) fun hstuck =>
      hexcess.ne' (excess_eq_zero (hstuck.mul_lt hab hb))
    have hlow := le_of_excess_pos hexcess
    unfold roundedUnits at hle
    generalize hr : nearest (u * a) (unitsPerOne * 2 ^ excess (u * a)) = r at hle
    obtain ⟨c, rfl⟩ : ∃ c, r = c + 1 := by
      refine Nat.exists_eq_succ_of_ne_zero ?_
      rintro rfl
      omega
    have hhalf := (lt_nearest_iff (spacing_pos (u * a)) (u * a) c).mp (by omega)
    have hup : u * unitsPerOne ≤ (c + 1) * (unitsPerOne * 2 ^ excess (u * a)) := by
      calc u * unitsPerOne
        _ ≤ (c + 1) * 2 ^ excess (u * a) * unitsPerOne := Nat.mul_le_mul_right _ hle
        _ = (c + 1) * (unitsPerOne * 2 ^ excess (u * a)) := by ring
    have hloss : u * unitsPerOne ≤ 2 ^ 53 * (u * b) := by
      calc u * unitsPerOne
        _ ≤ u * (2 ^ 53 * b) := Nat.mul_le_mul_left u hb
        _ = 2 ^ 53 * (u * b) := Nat.mul_left_comm u (2 ^ 53) b
    have hpos : 0 < u * unitsPerOne := Nat.mul_pos hu unitsPerOne_pos
    generalize unitsPerOne * 2 ^ excess (u * a) = d at *
    rw [Nat.add_mul, Nat.mul_assoc] at hhalf
    rw [Nat.add_one_mul] at hup
    omega
  · obtain ⟨c, rfl⟩ := Nat.exists_eq_succ_of_ne_zero hu.ne'
    have hzero : excess ((c + 1) * a) = 0 := Nat.eq_zero_of_not_pos hexcess
    rw [roundedUnits, hzero, pow_zero, Nat.mul_one, Nat.mul_one, Nat.succ_le_iff,
      lt_nearest_iff unitsPerOne_pos, Stuck]
    rw [Nat.add_one_mul c unitsPerOne] at hparts
    rw [Nat.add_mul, Nat.mul_assoc]
    omega

/-- **Nothing is increased.** -/
theorem roundedUnits_le (u : Nat) : roundedUnits (u * a) ≤ u := by
  by_contra hlt
  have hlt := Nat.lt_of_not_le hlt
  rcases Nat.eq_zero_or_pos u with rfl | hu
  · simp [roundedUnits, nearest, unitsPerOne_pos] at hlt
  · have hstuck := (le_roundedUnits_iff hab hb hu).mp hlt.le
    rw [roundedUnits_of_lt (hstuck.mul_lt hab hb)] at hlt
    have hle : u * a ≤ u * unitsPerOne := Nat.mul_le_mul_left u (by omega)
    have hnearest := nearest_le_nearest unitsPerOne_pos hle
    rw [nearest_mul_self unitsPerOne_pos] at hnearest
    omega

/-- **No number above a stuck one** is decreased below it. -/
theorem Stuck.le_roundedUnits (h : Stuck b u) (hle : u ≤ t) : u ≤ roundedUnits (t * a) := by
  rcases Nat.eq_zero_or_pos u with rfl | hu
  · exact Nat.zero_le _
  by_cases hexcess : 0 < excess (t * a)
  · exact (h.le_pow hb).trans (le_roundedUnits_of_excess hexcess)
  · have hself := (le_roundedUnits_iff hab hb hu).mpr h
    rw [roundedUnits_of_lt (h.mul_lt hab hb)] at hself
    rw [roundedUnits, Nat.eq_zero_of_not_pos hexcess, pow_zero, Nat.mul_one, Nat.mul_one]
    exact hself.trans (nearest_le_nearest unitsPerOne_pos (Nat.mul_le_mul_right a hle))

end Factor

end WeightedSat
