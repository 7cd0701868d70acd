import WeightedSat.Proofs.Anneal.Levels
import WeightedSat.Proofs.Double.Units

/-!
# Schedules that stand still

In double precision a temperature that is cooled need not become lower. Above the least normal
double it does, since a factor below one is so by enough; below it, the factor may take less than
half a unit off, and the product is rounded back. Whether this happens is decided at one
temperature, the least above the minimum: if that is not taken down, then no temperature passes it,
and if it is, then so are all above it, and the schedule is frozen after finitely many levels.

So a schedule in order always freezes if its minimum is a normal double, or if its factor is less
than three quarters, and there are schedules in order that never do.

## Main definitions

* `Schedule.Measured`: the parameters of a schedule as numbers of units
* `Schedule.Stalls`: the least temperature above the minimum is not taken down
* `stallingSchedule`: a schedule that stands still at two units

## Main results

* `Schedule.Measured.cool`: cooling, in units
* `Schedule.freezes_unless_stalls`: which schedules freeze
* `stalling_never_freezes`: there are others
-/

namespace WeightedSat

namespace Schedule

variable {s : Schedule Float}

/-! ## Schedules in units -/

/-- **Measured schedule**: its parameters are numbers of units, the factor is less than one, and the
minimum lies between zero and the start. -/
structure Measured (s : Schedule Float) : Prop where
  minTemperature : HasUnits s.minTemperature.toModel.unpack (units s.minTemperature)
  initialTemperature : HasUnits s.initialTemperature.toModel.unpack (units s.initialTemperature)
  alpha : HasUnits s.alpha.toModel.unpack (units s.alpha)
  minTemperature_pos : 0 < units s.minTemperature
  minTemperature_lt : units s.minTemperature < units s.initialTemperature
  alpha_lt : units s.alpha < unitsPerOne

theorem measured_of_check (h : s.check = .ok ()) : s.Measured := by
  obtain ⟨hmin, hpos, hinitial, habove, halpha, halpha_pos, hone, -⟩ := s.check_eq_ok_iff.mp h
  obtain ⟨hmin, hpos⟩ := hasUnits_units hmin hasUnits_zero hpos
  obtain ⟨hinitial, hlt⟩ := hasUnits_units hinitial hmin habove
  obtain ⟨halpha, -⟩ := hasUnits_units halpha hasUnits_zero halpha_pos
  refine ⟨hmin, hinitial, halpha, hpos, hlt, Nat.lt_of_not_le fun hge => ?_⟩
  rw [Scalar.le_float.mpr ((hasUnits_one.le_iff halpha).mpr hge)] at hone
  cases hone

/-- **Stalling**: the factor takes too little off the least temperature above the minimum. -/
def Stalls (s : Schedule Float) : Prop :=
  Stuck (unitsPerOne - units s.alpha) (units s.minTemperature + 1)

instance (s : Schedule Float) : Decidable s.Stalls := inferInstanceAs (Decidable (Stuck _ _))

namespace Measured

variable {t : Float} {u : Nat}

theorem alpha_add (hs : s.Measured) : units s.alpha + (unitsPerOne - units s.alpha) = unitsPerOne :=
  Nat.add_sub_cancel' hs.alpha_lt.le

theorem loss (hs : s.Measured) : unitsPerOne ≤ 2 ^ 53 * (unitsPerOne - units s.alpha) :=
  hs.alpha.unitsPerOne_le hs.alpha_lt

/-- **Cooling in units** rounds the product with the units of the factor. -/
theorem cool (hs : s.Measured) (ht : HasUnits t.toModel.unpack u) :
    HasUnits (s.cool t).toModel.unpack (roundedUnits (u * units s.alpha)) :=
  ht.mul_float hs.alpha (roundedUnits_le hs.alpha_add hs.loss u)

theorem frozen_iff (hs : s.Measured) (ht : HasUnits t.toModel.unpack u) :
    s.frozen t = true ↔ u ≤ units s.minTemperature :=
  Scalar.le_float.trans (ht.le_iff hs.minTemperature)

theorem coolTimes (hs : s.Measured) (n : Nat) :
    HasUnits (s.coolTimes n s.initialTemperature).toModel.unpack
      (units (s.coolTimes n s.initialTemperature)) := by
  induction n with
  | zero => exact hs.initialTemperature
  | succ n ih =>
    rw [coolTimes_succ]
    have hcool := hs.cool ih
    rwa [← hcool.unitsOf_eq] at hcool

theorem units_coolTimes_succ (hs : s.Measured) (n : Nat) :
    units (s.coolTimes (n + 1) s.initialTemperature) =
      roundedUnits (units (s.coolTimes n s.initialTemperature) * units s.alpha) := by
  rw [coolTimes_succ]
  exact (hs.cool (hs.coolTimes n)).unitsOf_eq

/-! ## The two ends -/

/-- **Without a stall** every temperature above the minimum is taken down, by a unit at least. -/
theorem exists_frozen (hs : s.Measured) (hstalls : ¬s.Stalls) (ht : HasUnits t.toModel.unpack u) :
    ∃ n ≤ u - units s.minTemperature, s.frozen (s.coolTimes n t) = true := by
  -- Induction on the units, of which every level has fewer.
  induction u using Nat.strongRecOn generalizing t with
  | ind u ih =>
    by_cases hle : u ≤ units s.minTemperature
    · exact ⟨0, Nat.zero_le _, (hs.frozen_iff ht).mpr hle⟩
    · have hlt : roundedUnits (u * units s.alpha) < u := by
        refine Nat.lt_of_not_le fun hge => hstalls ?_
        have hstuck := (le_roundedUnits_iff hs.alpha_add hs.loss (by omega)).mp hge
        exact hstuck.mono (Nat.sub_pos_of_lt hs.alpha_lt) (by omega)
      obtain ⟨n, hn, hfrozen⟩ := ih _ hlt (hs.cool ht)
      exact ⟨n + 1, by omega, hfrozen⟩

/-- **In a stall** no temperature above the minimum is taken down to it. -/
theorem not_frozen (hs : s.Measured) (hstalls : s.Stalls) (n : Nat)
    (ht : HasUnits t.toModel.unpack u) (hu : units s.minTemperature < u) :
    s.frozen (s.coolTimes n t) = false := by
  induction n generalizing t u with
  | zero => exact Bool.eq_false_iff.mpr fun hfrozen => ((hs.frozen_iff ht).mp hfrozen).not_gt hu
  | succ n ih => exact ih (hs.cool ht) (Stuck.le_roundedUnits hs.alpha_add hs.loss hstalls hu)

end Measured

/-- **Which schedules freeze.** The temperatures of a schedule in order are numbers of units, each
the rounded product of the one before and the factor. Unless the schedule stalls, it freezes, after
no more levels than there are units between its start and its minimum. If it stalls, no temperature
is ever frozen, and no search under it reports a result. It stalls only if its minimum is less than
the least normal double, which has fifty-two bits of units, and its factor is not less than three
quarters. -/
theorem freezes_unless_stalls (h : s.check = .ok ()) :
    (∀ n, units (s.coolTimes (n + 1) s.initialTemperature) =
      roundedUnits (units (s.coolTimes n s.initialTemperature) * units s.alpha)) ∧
    (¬s.Stalls →
      ∃ n ≤ units s.initialTemperature - units s.minTemperature, s.FreezesAt n) ∧
    (s.Stalls → (∀ n, s.frozen (s.coolTimes n s.initialTemperature) = false) ∧
      ∀ {ρ σ : Type} [WordSource ρ] [TraceSink Float σ] (o : Objective Float)
        (strategy : Strategy Float) (source : ρ) (sink : Option σ) (r : RunResult Float),
        (anneal o strategy s source sink).outcome ≠ .ok r) ∧
    (s.Stalls → units s.minTemperature < 2 ^ 52 ∧ 3 * unitsPerOne ≤ 4 * units s.alpha) := by
  have hs := measured_of_check h
  refine ⟨hs.units_coolTimes_succ, fun hstalls => ?_, fun hstalls => ?_, fun hstalls => ?_⟩
  · obtain ⟨n, hn, hfrozen⟩ := hs.exists_frozen hstalls hs.initialTemperature
    obtain ⟨m, hm, hfreezes⟩ := exists_freezesAt_le hfrozen
    exact ⟨m, hm.trans hn, hfreezes⟩
  · have hnever := fun n => hs.not_frozen hstalls n hs.initialTemperature hs.minTemperature_lt
    refine ⟨hnever, ?_⟩
    intro ρ σ _ _ o strategy source sink r hr
    have hfrozen := (anneal_eq_report hr).1.frozen
    rw [hnever] at hfrozen
    cases hfrozen
  · have hpow := hstalls.le_pow hs.loss
    have hpos := hs.minTemperature_pos
    have hadd := hs.alpha_add
    refine ⟨by omega, ?_⟩
    have htwo : 2 * (unitsPerOne - units s.alpha) ≤
        (units s.minTemperature + 1) * (unitsPerOne - units s.alpha) :=
      Nat.mul_le_mul_right _ (by omega)
    rcases hstalls with hlt | ⟨heq, -⟩ <;> omega

end Schedule

/-- From two units to one, by a factor that takes a fifth of a unit off. -/
def stallingSchedule : Schedule Float := ⟨Float.ofBits 2, 0.9, Float.ofBits 1, 1⟩

theorem stallingSchedule_stalls : stallingSchedule.Stalls := by decide +kernel

theorem freezes_unless_stalls_subnormal :
    stallingSchedule.check = .ok () ∧
      (∀ n, stallingSchedule.frozen
        (stallingSchedule.coolTimes n stallingSchedule.initialTemperature) = false) ∧
      pairSchedule.check = .ok () ∧ ∃ n, pairSchedule.FreezesAt n := by
  have hstalling : stallingSchedule.check = .ok () := by decide +kernel
  have hpair : pairSchedule.check = .ok () := by decide +kernel
  obtain ⟨-, -, hnever, -⟩ := Schedule.freezes_unless_stalls hstalling
  obtain ⟨-, hfreezes, -⟩ := Schedule.freezes_unless_stalls hpair
  have hstalls : ¬pairSchedule.Stalls := by decide +kernel
  obtain ⟨n, -, hn⟩ := hfreezes hstalls
  exact ⟨hstalling, (hnever stallingSchedule_stalls).1, hpair, n, hn⟩

/-- **A schedule in order need not freeze.** -/
theorem stalling_never_freezes :
    ¬∀ s : Schedule Float, s.check = .ok () → ∃ n, s.FreezesAt n := by
  intro hall
  have hcheck : stallingSchedule.check = .ok () := by decide +kernel
  have hcool : stallingSchedule.cool stallingSchedule.initialTemperature =
      stallingSchedule.initialTemperature := by decide +kernel
  have hstill : ∀ n, stallingSchedule.coolTimes n stallingSchedule.initialTemperature =
      stallingSchedule.initialTemperature := by
    intro n
    induction n with
    | zero => rfl
    | succ n ih => rw [Schedule.coolTimes_succ, ih, hcool]
  obtain ⟨n, hn⟩ := hall stallingSchedule hcheck
  have hfrozen := hn.frozen
  rw [hstill, Schedule.not_frozen_initial hcheck] at hfrozen
  cases hfrozen

end WeightedSat
