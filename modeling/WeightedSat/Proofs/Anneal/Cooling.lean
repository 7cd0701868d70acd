import Mathlib.Analysis.SpecialFunctions.Log.Basic
import WeightedSat.Proofs.Anneal.Best
import WeightedSat.Proofs.Anneal.Ending
import WeightedSat.Proofs.Energy

/-!
# The length of a schedule, without rounding

Over exact scalars the temperatures of a schedule are a geometric sequence, and as its factor is
less than one, they come down to any minimum that is positive. The first level that is frozen is the
least exponent of the factor that does it. Logarithms turn this into a quotient: they are increasing
and turn the powers into multiples, and that of the factor is negative, so the least exponent is the
least whole number that is not below the quotient. That number is what the schedule predicts.

## Main definitions

* `Elementary.LawfulLog K`: the logarithm is increasing and turns products into sums
* `halvingSchedule`: from one hundred to one by halves

## Main results

* `Schedule.coolTimes_eq`: the temperatures
* `Schedule.freezesAt_iff`: the first frozen level is a least exponent
* `Schedule.exists_freezesAt`: there is one
* `Schedule.coolingSteps_eq`: it is predicted from logarithms
* `anneal_levels_predicted`: the levels of a search, and its bound on rejections
-/

namespace WeightedSat

section Exact

variable {K : Type} [Field K] [LinearOrder K] [FloorSemiring K] [Elementary K]

/-! ## Logarithms -/

variable (K) in
/-- **Lawful logarithm**: on positive scalars it is increasing and turns products into sums. -/
class Elementary.LawfulLog : Prop where
  ln_lt_ln {x y : K} : 0 < x → x < y → Elementary.ln x < Elementary.ln y
  ln_mul {x y : K} : 0 < x → 0 < y → Elementary.ln (x * y) = Elementary.ln x + Elementary.ln y

namespace Elementary

variable [LawfulLog K] {x y : K}

theorem ln_le_ln_iff (hx : 0 < x) (hy : 0 < y) : ln x ≤ ln y ↔ x ≤ y := by
  constructor
  · intro hle
    by_contra hlt
    exact (LawfulLog.ln_lt_ln hy (not_le.mp hlt)).not_ge hle
  · intro hle
    rcases hle.eq_or_lt with rfl | hlt
    · exact le_rfl
    · exact (LawfulLog.ln_lt_ln hx hlt).le

variable [IsStrictOrderedRing K]

variable (K) in
theorem ln_one : ln (1 : K) = 0 := by
  have hdouble : ln (1 * 1 : K) = ln 1 + ln 1 := LawfulLog.ln_mul one_pos one_pos
  rw [mul_one] at hdouble
  exact left_eq_add.mp hdouble

theorem ln_neg (hx : 0 < x) (hlt : x < 1) : ln x < 0 :=
  ln_one K ▸ LawfulLog.ln_lt_ln hx hlt

theorem ln_mul_pow (hx : 0 < x) (hy : 0 < y) (n : Nat) : ln (y * x ^ n) = ln y + n * ln x := by
  induction n with
  | zero => simp
  | succ n ih =>
    rw [pow_succ, ← mul_assoc, LawfulLog.ln_mul (by positivity) hx, ih, Nat.cast_succ]
    ring

end Elementary

/-! ## Temperatures -/

namespace Schedule

variable {s : Schedule K}

theorem coolTimes_eq (s : Schedule K) (n : Nat) (t : K) : s.coolTimes n t = t * s.alpha ^ n := by
  induction n with
  | zero => rw [pow_zero, mul_one, coolTimes]
  | succ n ih => rw [coolTimes_succ, ih, cool, pow_succ, mul_assoc]

theorem frozen_coolTimes_iff {n : Nat} :
    s.frozen (s.coolTimes n s.initialTemperature) = true ↔
      s.initialTemperature * s.alpha ^ n ≤ s.minTemperature := by
  rw [coolTimes_eq]
  exact decide_eq_true_iff

/-- **The first frozen level** is the least exponent that brings the temperature down to the
minimum. -/
theorem freezesAt_iff {n : Nat} :
    s.FreezesAt n ↔ IsLeast {k | s.initialTemperature * s.alpha ^ k ≤ s.minTemperature} n := by
  constructor
  · intro h
    exact ⟨frozen_coolTimes_iff.mp h.frozen, fun k hk => h.le (frozen_coolTimes_iff.mpr hk)⟩
  · intro h
    refine ⟨frozen_coolTimes_iff.mpr h.1, fun l hl => Bool.eq_false_iff.mpr fun hfrozen => ?_⟩
    exact (h.2 (frozen_coolTimes_iff.mp hfrozen)).not_gt hl

/-- The conditions on the parameters, over exact scalars. -/
theorem check_eq_ok_exact :
    s.check = .ok () ↔ 0 < s.minTemperature ∧ s.minTemperature < s.initialTemperature ∧
      0 < s.alpha ∧ s.alpha < 1 ∧ s.iterationsPerTemperature ≠ 0 := by
  have hzero : (0.0 : K) = 0 := by norm_num
  have hone : (1.0 : K) = 1 := by norm_num
  have hnot : ∀ x y : K, Scalar.le x y = false ↔ y < x := fun x y =>
    decide_eq_false_iff_not.trans not_le
  rw [check_eq_ok_iff]
  constructor
  · intro h
    refine ⟨?_, (hnot _ _).mp h.initialTemperature_above, ?_, ?_, h.iterations_ne_zero⟩
    · exact hzero ▸ (hnot _ _).mp h.minTemperature_positive
    · exact hzero ▸ (hnot _ _).mp h.alpha_positive
    · exact hone ▸ (hnot _ _).mp h.alpha_below_one
  · rintro ⟨hmin, hinitial, halpha, hone', hiterations⟩
    exact {
      minTemperature_finite := rfl
      minTemperature_positive := (hnot _ _).mpr (hzero ▸ hmin)
      initialTemperature_finite := rfl
      initialTemperature_above := (hnot _ _).mpr hinitial
      alpha_finite := rfl
      alpha_positive := (hnot _ _).mpr (hzero ▸ halpha)
      alpha_below_one := (hnot _ _).mpr (hone ▸ hone')
      iterations_ne_zero := hiterations }

variable [IsStrictOrderedRing K]

/-- **A schedule in order freezes**, since powers of its factor become as small as one likes. -/
theorem exists_freezesAt (h : s.check = .ok ()) : ∃ n, s.FreezesAt n := by
  obtain ⟨hmin, hinitial, halpha, hone, -⟩ := check_eq_ok_exact.mp h
  have hpos : 0 < s.initialTemperature := hmin.trans hinitial
  have harchimedean : Archimedean K :=
    archimedean_iff_nat_lt.mpr fun x => ⟨⌊x⌋₊ + 1, by exact_mod_cast Nat.lt_floor_add_one x⟩
  obtain ⟨k, hk⟩ := exists_pow_lt_of_lt_one (div_pos hmin hpos) hone
  obtain ⟨n, -, hn⟩ :=
    exists_freezesAt_le (frozen_coolTimes_iff.mpr ((lt_div_iff₀' hpos).mp hk).le)
  exact ⟨n, hn⟩

variable [Elementary.LawfulLog K]

/-- **The exponents that cool down to the minimum** are those that are not below the quotient of
logarithms, whose sign is turned by the factor. -/
theorem cooled_iff (h : s.check = .ok ()) (n : Nat) :
    s.initialTemperature * s.alpha ^ n ≤ s.minTemperature ↔
      (Elementary.ln s.minTemperature - Elementary.ln s.initialTemperature) /
        Elementary.ln s.alpha ≤ n := by
  obtain ⟨hmin, hinitial, halpha, hone, -⟩ := check_eq_ok_exact.mp h
  have hpos : 0 < s.initialTemperature := hmin.trans hinitial
  rw [← Elementary.ln_le_ln_iff (mul_pos hpos (pow_pos halpha n)) hmin,
    Elementary.ln_mul_pow halpha hpos, div_le_iff_of_neg (Elementary.ln_neg halpha hone),
    le_sub_iff_add_le']

/-- **The predicted number of levels** is that of the first frozen one, unless there is no room for
it. -/
theorem coolingSteps_eq (h : s.check = .ok ()) {n : Nat} (hn : s.FreezesAt n) :
    s.coolingSteps = saturate n := by
  obtain ⟨hmin, hinitial, halpha, hone, -⟩ := check_eq_ok_exact.mp h
  have hquotient : (0.0 : K) < (Elementary.ln s.minTemperature -
      Elementary.ln s.initialTemperature) / Elementary.ln s.alpha := by
    rw [show (0.0 : K) = 0 by norm_num]
    exact div_pos_of_neg_of_neg (sub_neg.mpr (Elementary.LawfulLog.ln_lt_ln hmin hinitial))
      (Elementary.ln_neg halpha hone)
  have hceil : ⌈(Elementary.ln s.minTemperature - Elementary.ln s.initialTemperature) /
      Elementary.ln s.alpha⌉₊ = n := by
    refine IsLeast.unique ⟨?_, fun k hk => ?_⟩ (freezesAt_iff.mp hn)
    · exact (cooled_iff h _).mpr (Nat.le_ceil _)
    · exact Nat.ceil_le.mpr ((cooled_iff h k).mp hk)
  calc s.coolingSteps
    _ = Scalar.ceilCount ((Elementary.ln s.minTemperature -
          Elementary.ln s.initialTemperature) / Elementary.ln s.alpha) :=
      if_pos (decide_eq_true hquotient)
    _ = saturate n := congrArg saturate hceil

end Schedule

/-! ## Searches -/

variable [IsStrictOrderedRing K] [Elementary.LawfulLog K]

/-- **The levels of a search are predicted.** Over exact scalars, let the logarithm be any
increasing function that turns products into sums. For every schedule in order there is a least
exponent of its factor that brings its temperature down to the minimum, and this is the predicted
number of levels, cut at the largest count. Every search that reports a result has that many levels;
and if the hundredfold number of variables is a count, its bound on rejections is the larger of that
number and half of its moves. -/
theorem anneal_levels_predicted {s : Schedule K} (h : s.check = .ok ()) :
    ∃ n, IsLeast {k | s.initialTemperature * s.alpha ^ k ≤ s.minTemperature} n ∧
      (n ≤ maxCount → s.coolingSteps = n) ∧ (maxCount < n → s.coolingSteps = maxCount) ∧
      ∀ {ρ σ : Type} [WordSource ρ] [TraceSink K σ] (o : Objective K) (strategy : Strategy K)
        (source : ρ) (sink : Option σ) (r : RunResult K),
        (anneal o strategy s source sink).outcome = .ok r →
          n ≤ maxCount ∧ r.levels = s.coolingSteps ∧
          (100 * o.inst.numVars ≤ maxCount →
            r.stagnationBound = max (r.iterations / 2) (100 * o.inst.numVars)) := by
  obtain ⟨n, hn⟩ := Schedule.exists_freezesAt h
  have hsteps := Schedule.coolingSteps_eq h hn
  refine ⟨n, Schedule.freezesAt_iff.mp hn, fun hle => ?_, fun hlt => ?_, ?_⟩
  · rw [hsteps, saturate_of_le hle]
  · rw [hsteps, saturate, Nat.min_eq_right hlt.le]
  · intro ρ σ _ _ o strategy source sink r hr
    obtain ⟨hfreezes, hroom, hreport, -⟩ := anneal_eq_report hr
    have hlevels : r.levels = n := hfreezes.unique hn
    have hiterations : r.iterations = n * s.iterationsPerTemperature := by
      rw [← hlevels]
      exact congrArg RunResult.iterations hreport
    have hle : n ≤ maxCount :=
      calc n
        _ ≤ n * s.iterationsPerTemperature :=
          Nat.le_mul_of_pos_right n (Nat.pos_of_ne_zero (s.iterationsPerTemperature_ne_zero h))
        _ ≤ maxCount := hiterations ▸ hroom
    rw [saturate_of_le hle] at hsteps
    refine ⟨hle, hlevels.trans hsteps.symm, fun hvars => ?_⟩
    have hbound : r.stagnationBound = s.stagnationBound o.inst.numVars :=
      congrArg RunResult.stagnationBound hreport
    rw [hbound, Schedule.stagnationBound, hsteps, ← hiterations, saturate_of_le hroom, Nat.mul_comm,
      saturate_of_le hvars]

end Exact

/-! ## Real numbers -/

noncomputable instance : Elementary ℝ := ⟨Real.exp, Real.log⟩

instance : Elementary.LawfulLog ℝ where
  ln_lt_ln := Real.log_lt_log
  ln_mul hx hy := Real.log_mul hx.ne' hy.ne'

/-- From one hundred to one by halves, with ten moves at each temperature. -/
noncomputable def halvingSchedule : Schedule ℝ := ⟨100, 1 / 2, 1, 10⟩

theorem isLeast_halving :
    IsLeast {k | halvingSchedule.initialTemperature * halvingSchedule.alpha ^ k ≤
      halvingSchedule.minTemperature} 7 := by
  constructor
  · show (100 : ℝ) * (1 / 2) ^ 7 ≤ 1
    norm_num
  · intro k hk
    by_contra hlt
    have hpow : (1 / 2 : ℝ) ^ 6 ≤ (1 / 2) ^ k :=
      pow_le_pow_of_le_one (by norm_num) (by norm_num) (by omega)
    have hcool : (100 : ℝ) * (1 / 2) ^ k ≤ 1 := hk
    linarith

theorem anneal_levels_predicted_halving :
    ∃ (o : Objective ℝ) (r : RunResult ℝ),
      Objective.ofInstance pairInstance = .ok o ∧ halvingSchedule.coolingSteps = 7 ∧
      (anneal o .noise halvingSchedule allOnes (none : Option (RowLog ℝ))).outcome = .ok r ∧
      r.levels = 7 ∧ r.stagnationBound = 200 := by
  have hcheck : halvingSchedule.check = .ok () :=
    Schedule.check_eq_ok_exact.mpr (by norm_num [halvingSchedule])
  obtain ⟨n, hn, hsteps, -, hruns⟩ := anneal_levels_predicted hcheck
  obtain rfl : n = 7 := hn.unique isLeast_halving
  have hweight : pairInstance.totalWeight ≠ 0 := by decide
  obtain ⟨o, ho⟩ := Objective.exists_ofInstance (F := ℝ) hweight
  obtain ⟨hinst, -⟩ := Objective.eq_of_ofInstance ho
  have hclauses : o.inst.numClauses ≠ 0 := by
    rw [hinst]
    decide
  have hroom : 7 * halvingSchedule.iterationsPerTemperature ≤ maxCount := by decide
  obtain ⟨r, hr⟩ := exists_result_of_frozen (RowLog ℝ) .noise allOnes hcheck hclauses
    (Schedule.frozen_coolTimes_iff.mpr isLeast_halving.1) hroom
  obtain ⟨hle, hlevels, hbound⟩ := hruns o .noise allOnes none r hr
  rw [hsteps hle] at hlevels
  refine ⟨o, r, ho, hsteps hle, hr, hlevels, ?_⟩
  obtain ⟨hschedule, hiterations⟩ := anneal_iterations_eq hr
  rw [hbound (by rw [hinst]; decide), hiterations, hlevels, hschedule, hinst]
  show max (7 * 10 / 2) (100 * 2) = 200
  decide

end WeightedSat
