import WeightedSat.Proofs.Anneal.Cooling

/-!
# Tuned schedules

Over exact scalars the schedule that suits an instance depends on its number of variables only, and
that number does not decide how many levels there are. It is part of one factor that is common to
the start and the minimum, and in the comparison of a temperature with the minimum the factor
cancels. What is left compares the power of the cooling factor with the quotient of two logarithms.
So all tuned searches have one number of levels, and their moves grow with the number of variables
alone.

Of the logarithms only this is used, that both are negative and that of the smaller probability is
the smaller one. They need not be the values of a true logarithm, nor even near them.

## Main results

* `Schedule.tuned_eq`: the parameters, by the number of variables
* `Schedule.check_tuned`: tuned schedules are in order, whatever the weights
* `Schedule.cooled_tuned_iff`: where they freeze, without the number of variables
* `anneal_tuned_levels`: the levels and the moves of all tuned searches
-/

namespace WeightedSat

theorem Instance.moves_le_maxCount (inst : Instance) : 3 * max inst.numVars 1 ≤ maxCount := by
  have hlt := inst.numVars_lt
  unfold capacity at hlt
  unfold maxCount
  omega

section Exact

variable {K : Type} [Field K] [LinearOrder K] [FloorSemiring K] [Elementary K]

namespace Schedule

/-- **The tuned schedule** depends on the number of variables only: the sum of the weights, measured
in their average, is the number of variables. -/
theorem tuned_eq (inst : Instance) :
    (tuned inst : Schedule K) =
      { initialTemperature := -((max inst.numVars 1 : Nat) + 1.0 : K) / Elementary.ln 0.9
        alpha := 0.99
        minTemperature := -((max inst.numVars 1 : Nat) + 1.0 : K) / Elementary.ln 0.0001
        iterationsPerTemperature := 3 * max inst.numVars 1 } := by
  have hscale : (if Scalar.lt (0.0 : K) ((inst.totalWeight : K) / (max inst.numVars 1 : Nat)) = true
      then (inst.totalWeight : K) / ((inst.totalWeight : K) / (max inst.numVars 1 : Nat)) + 1.0
      else ((max inst.numVars 1 : Nat) : K) + 1.0) = ((max inst.numVars 1 : Nat) : K) + 1.0 := by
    split
    · next hpos =>
      have hweight : (inst.totalWeight : K) ≠ 0 := by
        intro hzero
        have hlt : (0.0 : K) < (inst.totalWeight : K) / (max inst.numVars 1 : Nat) :=
          of_decide_eq_true hpos
        rw [hzero, zero_div] at hlt
        norm_num at hlt
      rw [div_div_cancel₀ hweight]
    · rfl
  exact congrArg (fun x : K => (⟨-x / Elementary.ln 0.9, 0.99, -x / Elementary.ln 0.0001,
    3 * max inst.numVars 1⟩ : Schedule K)) hscale

variable [IsStrictOrderedRing K]

variable (hlow : Elementary.ln (0.0001 : K) < Elementary.ln 0.9)
  (hhigh : Elementary.ln (0.9 : K) < 0) (inst : Instance)
include hlow hhigh

/-- **A tuned schedule is in order**: its two temperatures are one positive number over the two
logarithms, and the smaller logarithm gives the lower one. -/
theorem check_tuned : (tuned inst : Schedule K).check = .ok () := by
  have hscale : (0 : K) < (max inst.numVars 1 : Nat) + 1.0 := by positivity
  rw [check_eq_ok_exact, tuned_eq]
  refine ⟨?_, ?_, by norm_num, by norm_num, ?_⟩
  · exact div_pos_of_neg_of_neg (neg_neg_of_pos hscale) (hlow.trans hhigh)
  · rw [neg_div, neg_div, ← div_neg, ← div_neg]
    exact div_lt_div_of_pos_left hscale (neg_pos.mpr hhigh) (neg_lt_neg hlow)
  · show 3 * max inst.numVars 1 ≠ 0
    omega

/-- **The scale cancels** in the comparison of a temperature with the minimum. -/
theorem cooled_tuned_iff (k : Nat) :
    (tuned inst : Schedule K).initialTemperature * (tuned inst).alpha ^ k ≤
        (tuned inst).minTemperature ↔
      (0.99 : K) ^ k * -Elementary.ln 0.0001 ≤ -Elementary.ln 0.9 := by
  have hscale : (0 : K) < (max inst.numVars 1 : Nat) + 1.0 := by positivity
  rw [tuned_eq]
  dsimp only
  rw [neg_div, neg_div, ← div_neg, ← div_neg, div_mul_eq_mul_div,
    div_le_div_iff₀ (neg_pos.mpr hhigh) (neg_pos.mpr (hlow.trans hhigh)), mul_assoc,
    mul_le_mul_iff_right₀ hscale]

/-- **All tuned schedules freeze at one level**, the least exponent that takes the start of any of
them to its minimum. -/
theorem freezesAt_tuned_iff {n : Nat} :
    (tuned inst : Schedule K).FreezesAt n ↔
      IsLeast {k | (0.99 : K) ^ k * -Elementary.ln 0.0001 ≤ -Elementary.ln 0.9} n := by
  simp only [freezesAt_iff, cooled_tuned_iff hlow hhigh inst]

end Schedule

variable [IsStrictOrderedRing K]

/-- **Tuned schedules** can be used for every instance, whatever its weights, and depend on its
number of variables only. Over exact scalars, with two logarithms in order, the tuned schedule of
every instance passes the check; its moves at each temperature are three for each variable, and
never more than can be counted; and instances with one number of variables have one tuned schedule.
There is one number of levels, the least exponent that takes the start of any of these schedules to
its minimum, such that every tuned search of whatever instance that reports a result has that many
levels, each with three moves for each variable. -/
theorem anneal_tuned_levels (hlow : Elementary.ln (0.0001 : K) < Elementary.ln 0.9)
    (hhigh : Elementary.ln (0.9 : K) < 0) :
    (∀ inst : Instance, (Schedule.tuned inst : Schedule K).check = .ok () ∧
      (Schedule.tuned inst : Schedule K).iterationsPerTemperature = 3 * max inst.numVars 1 ∧
      3 * max inst.numVars 1 ≤ maxCount) ∧
    (∀ inst inst' : Instance, inst.numVars = inst'.numVars →
      (Schedule.tuned inst : Schedule K) = Schedule.tuned inst') ∧
    ∃ levels, IsLeast {k | (0.99 : K) ^ k * -Elementary.ln 0.0001 ≤ -Elementary.ln 0.9} levels ∧
      ∀ {ρ σ : Type} [WordSource ρ] [TraceSink K σ] (o : Objective K) (strategy : Strategy K)
        (source : ρ) (sink : Option σ) (r : RunResult K),
        (anneal o strategy (Mode.auto.resolve o.inst) source sink).outcome = .ok r →
          r.levels = levels ∧ r.iterations = 3 * o.inst.numVars * levels := by
  refine ⟨fun inst => ⟨Schedule.check_tuned hlow hhigh inst, rfl, inst.moves_le_maxCount⟩, ?_, ?_⟩
  · intro inst inst' hvars
    rw [Schedule.tuned_eq, Schedule.tuned_eq, hvars]
  · obtain ⟨levels, hlevels⟩ :=
      Schedule.exists_freezesAt (Schedule.check_tuned hlow hhigh pairInstance)
    have hleast := (Schedule.freezesAt_tuned_iff hlow hhigh pairInstance).mp hlevels
    refine ⟨levels, hleast, ?_⟩
    intro ρ σ _ _ o strategy source sink r hr
    obtain ⟨hfreezes, -, hreport, -⟩ := anneal_eq_report hr
    have hcount : r.levels = levels :=
      ((Schedule.freezesAt_tuned_iff hlow hhigh o.inst).mp hfreezes).unique hleast
    have hvars : max o.inst.numVars 1 = o.inst.numVars :=
      Nat.max_eq_left (Nat.one_le_iff_ne_zero.mpr o.numVars_ne_zero)
    refine ⟨hcount, ?_⟩
    calc r.iterations
      _ = r.levels * (3 * max o.inst.numVars 1) := congrArg RunResult.iterations hreport
      _ = 3 * o.inst.numVars * levels := by rw [hcount, hvars, Nat.mul_comm]

end Exact

/-! ## Real numbers -/

theorem real_ln_low_lt : Elementary.ln (0.0001 : ℝ) < Elementary.ln 0.9 :=
  Real.log_lt_log (by norm_num) (by norm_num)

theorem real_ln_high_neg : Elementary.ln (0.9 : ℝ) < 0 :=
  Real.log_neg (by norm_num) (by norm_num)

/-- Twelve hundred levels are enough, by rough bounds of the two logarithms. -/
theorem real_cooled :
    (0.99 : ℝ) ^ 1200 * -Elementary.ln (0.0001 : ℝ) ≤ -Elementary.ln (0.9 : ℝ) := by
  have hhigh : Real.log 0.9 ≤ 0.9 - 1 := Real.log_le_sub_one_of_pos (by norm_num)
  have hlow : Real.log 0.0001⁻¹ ≤ 0.0001⁻¹ - 1 := Real.log_le_sub_one_of_pos (by norm_num)
  rw [Real.log_inv] at hlow
  have hnonneg : 0 ≤ -Real.log 0.0001 := (neg_pos.mpr (real_ln_low_lt.trans real_ln_high_neg)).le
  have hpow : (0.99 : ℝ) ^ 200 ≤ 1 / 7 := by norm_num
  calc (0.99 : ℝ) ^ 1200 * -Real.log 0.0001
    _ = (0.99 ^ 200) ^ 6 * -Real.log 0.0001 := by rw [← pow_mul]
    _ ≤ (1 / 7) ^ 6 * (0.0001⁻¹ - 1) := by gcongr
    _ ≤ -(0.9 - 1) := by norm_num
    _ ≤ -Real.log 0.9 := neg_le_neg hhigh

theorem exists_tuned_run (inst : Instance) (hweight : inst.totalWeight ≠ 0)
    (hclauses : inst.numClauses ≠ 0)
    (hroom : 1200 * (3 * max inst.numVars 1) ≤ maxCount) :
    ∃ (o : Objective ℝ) (r : RunResult ℝ), o.inst = inst ∧
      (anneal o .noise (Mode.auto.resolve o.inst) allOnes
        (none : Option (RowLog ℝ))).outcome = .ok r := by
  obtain ⟨o, ho⟩ := Objective.exists_ofInstance (F := ℝ) hweight
  obtain ⟨rfl, -⟩ := Objective.eq_of_ofInstance ho
  have hcheck := Schedule.check_tuned real_ln_low_lt real_ln_high_neg o.inst
  have hcooled :=
    (Schedule.cooled_tuned_iff real_ln_low_lt real_ln_high_neg o.inst 1200).mpr real_cooled
  obtain ⟨r, hr⟩ := exists_result_of_frozen (RowLog ℝ) .noise allOnes hcheck hclauses
    (Schedule.frozen_coolTimes_iff.mpr hcooled) hroom
  exact ⟨o, r, rfl, hr⟩

theorem anneal_tuned_levels_shared :
    ∃ (o o' : Objective ℝ) (r r' : RunResult ℝ),
      o.inst = pairInstance ∧ o'.inst = Objective.forbiddenInstance ∧
      (anneal o .noise (Mode.auto.resolve o.inst) allOnes
        (none : Option (RowLog ℝ))).outcome = .ok r ∧
      (anneal o' .noise (Mode.auto.resolve o'.inst) allOnes
        (none : Option (RowLog ℝ))).outcome = .ok r' ∧
      r.levels = r'.levels ∧ r.iterations = 6 * r.levels ∧ r'.iterations = 3 * r.levels := by
  obtain ⟨-, -, levels, -, hruns⟩ := anneal_tuned_levels real_ln_low_lt real_ln_high_neg
  obtain ⟨o, r, ho, hr⟩ :=
    exists_tuned_run pairInstance (by decide) (by decide) (by decide)
  obtain ⟨o', r', ho', hr'⟩ :=
    exists_tuned_run Objective.forbiddenInstance (by decide) (by decide) (by decide)
  obtain ⟨hlevels, hiterations⟩ := hruns o .noise allOnes none r hr
  obtain ⟨hlevels', hiterations'⟩ := hruns o' .noise allOnes none r' hr'
  refine ⟨o, o', r, r', ho, ho', hr, hr', hlevels.trans hlevels'.symm, ?_, ?_⟩
  · rw [hiterations, hlevels, ho]
    rfl
  · rw [hiterations', hlevels, ho']
    rfl

end WeightedSat
