import WeightedSat.Proofs.Anneal.Best
import WeightedSat.Proofs.Anneal.Report

/-!
# The levels of a search and its history

A search counts its moves, the moves of a level and the levels, each by itself, and takes a snapshot
of its best state at the start and at the end of each level. The counts stay in step: the snapshot
of number `k` is taken after exactly `k` full levels, so it shows the best state of that much of the
walk. What is best only ever gives way to what beats it, so along the history fewer and fewer
clauses are unsatisfied, and the weight changes only with their number or when there are none.

## Main definitions

* `briskSchedule`: two levels of one move each

## Main results

* `Objective.bestAt_supersedes`: the best state of more moves supersedes that of fewer
* `Objective.supersedes_of_history_report`: so do the later entries of a history
* `Schedule.FreezesAt.pos`: a schedule in order has at least one level
* `anneal_history`: the levels, the moves and the history of a search
-/

namespace WeightedSat

variable {F ρ σ : Type} [Scalar F]

/-- A schedule in order starts above its minimum. -/
theorem Schedule.not_frozen_initial {s : Schedule F} (h : s.check = .ok ()) :
    s.frozen s.initialTemperature = false :=
  (s.check_eq_ok_iff.mp h).initialTemperature_above

theorem Schedule.FreezesAt.pos {s : Schedule F} {n : Nat} (h : s.FreezesAt n)
    (hc : s.check = .ok ()) : 1 ≤ n := by
  rcases Nat.eq_zero_or_pos n with rfl | hn
  · have hfrozen : s.frozen s.initialTemperature = true := h.frozen
    rw [Schedule.not_frozen_initial hc] at hfrozen
    cases hfrozen
  · exact hn

section Walk

variable [WordSource ρ] (o : Objective F) (strategy : Strategy F) (s : Schedule F) (source : ρ)

namespace Objective

/-- **The best state of more moves** supersedes that of fewer. -/
theorem bestAt_supersedes {m n : Nat} (hmn : m ≤ n) :
    (o.bestAt strategy s source n).toStanding.Supersedes
      (o.bestAt strategy s source m).toStanding := by
  -- Induction on the moves between the two: each keeps the best state or beats it.
  induction hmn with
  | refl => exact Standing.Supersedes.refl _
  | step hmn ih =>
    refine Standing.Supersedes.trans ?_ ih
    simp only [bestAt]
    split
    · next hbeats => exact .inr hbeats
    · exact .inl rfl

theorem size_history_report (levels : Nat) :
    (o.report strategy s source levels).history.size = levels + 1 := by
  simp [report, snapshots]

theorem getElem?_history_report {levels k : Nat} (hk : k ≤ levels) :
    (o.report strategy s source levels).history[k]? =
      some (o.snapshotAt strategy s source (k * s.iterationsPerTemperature)) := by
  simp [report, snapshots, Nat.lt_succ_of_le hk]

/-- **The later entries of a history** supersede the earlier ones. -/
theorem supersedes_of_history_report {levels k l : Nat} {earlier later : Snapshot} (hkl : k ≤ l)
    (hearlier : (o.report strategy s source levels).history[k]? = some earlier)
    (hlater : (o.report strategy s source levels).history[l]? = some later) :
    later.toStanding.Supersedes earlier.toStanding := by
  have hl : l ≤ levels := by
    have hlt := (Array.getElem?_eq_some_iff.mp hlater).1
    rw [size_history_report] at hlt
    exact Nat.le_of_lt_succ hlt
  rw [o.getElem?_history_report strategy s source (Nat.le_trans hkl hl)] at hearlier
  rw [o.getElem?_history_report strategy s source hl] at hlater
  obtain rfl := Option.some.inj hearlier
  obtain rfl := Option.some.inj hlater
  exact o.bestAt_supersedes strategy s source
    (Nat.mul_le_mul_right s.iterationsPerTemperature hkl)

end Objective

end Walk

section Results

variable [WordSource ρ] [TraceSink F σ] {o : Objective F} {strategy : Strategy F}
  {schedule : Schedule F} {source : ρ} {sink : Option σ} {r : RunResult F}

theorem Search.OnWalk.best_eq_bestAt {i : Nat} {s : Search F ρ σ}
    (h : OnWalk o strategy schedule source sink i s) :
    s.recorder.best = o.bestAt strategy schedule source i := by
  obtain ⟨j, -, hfollows⟩ := h.follows
  rw [hfollows.best_eq_bestAt, h.steps_eq]

/-- The best state of the walk is the first unbeaten of the states of a search along it. -/
theorem Search.exists_firstUnbeaten {s : Nat → Search F ρ σ} {n : Nat}
    (hwalk : ∀ i ≤ n, OnWalk o strategy schedule source sink i (s i)) :
    ∃ j, FirstUnbeaten (fun i => o.inst.standing (s i).position.assignment) n j ∧
      (o.bestAt strategy schedule source n).toStanding =
        o.inst.standing (s j).position.assignment := by
  have hstanding : ∀ i ≤ n, (o.visited strategy schedule source i).toStanding =
      o.inst.standing (s i).position.assignment := by
    intro i hi
    rw [← (hwalk i hi).position_eq]
    exact (hwalk i hi).sound.toStanding_eq
  obtain ⟨j, hj, hbest⟩ := o.bestAt_firstUnbeaten strategy schedule source n
  refine ⟨j, hj.congr hstanding, ?_⟩
  rw [hbest]
  exact hstanding j hj.le

/-- **The levels and the history of a search** that reports a result. There are as many levels as it
takes to freeze, at least one, all of them full, and the temperature is cooled once for each. The
history has an entry for the start and for the end of each level, which shows the first unbeaten of
the states visited until then. So along the history the unsatisfied clauses never become more, the
weight stays as long as the same clauses, one at least, are unsatisfied, and does not drop when
there are none; and the last entry shows the best state that is reported. -/
theorem anneal_history (h : (anneal o strategy schedule source sink).outcome = .ok r) :
    schedule.FreezesAt r.levels ∧ 1 ≤ r.levels ∧
      r.finalTemperature = schedule.coolTimes r.levels schedule.initialTemperature ∧
      r.iterations = r.levels * schedule.iterationsPerTemperature ∧
      r.history.size = r.levels + 1 ∧
      (∃ s : Nat → Search F ρ σ,
        Search.Itinerary o strategy schedule source sink r.iterations s ∧
        (∀ i ≤ r.iterations, o.inst.countUnsatisfied (s i).position.assignment =
          .ok (o.inst.standing (s i).position.assignment).unsatisfied) ∧
        ∀ k ≤ r.levels, ∃ snapshot j, r.history[k]? = some snapshot ∧
          snapshot.step = k * schedule.iterationsPerTemperature ∧
          FirstUnbeaten (fun i => o.inst.standing (s i).position.assignment) snapshot.step j ∧
          snapshot.toStanding = o.inst.standing (s j).position.assignment) ∧
      (∀ (k l : Nat) (earlier later : Snapshot), k ≤ l → r.history[k]? = some earlier →
        r.history[l]? = some later →
          later.unsatisfied ≤ earlier.unsatisfied ∧
          (later.unsatisfied = earlier.unsatisfied → earlier.unsatisfied ≠ 0 →
            later.weight = earlier.weight) ∧
          (earlier.unsatisfied = 0 → earlier.weight ≤ later.weight)) ∧
      ∃ last, r.history[r.levels]? = some last ∧ last.toStanding = r.best.toStanding := by
  obtain ⟨s, hs, hwalk, -, -⟩ := anneal_itinerary h
  obtain ⟨hfreezes, -, hreport, -⟩ := anneal_eq_report h
  have hhistory : r.history = (o.report strategy schedule source r.levels).history :=
    congrArg RunResult.history hreport
  have hiterations : r.iterations = r.levels * schedule.iterationsPerTemperature :=
    congrArg RunResult.iterations hreport
  have hentry : ∀ k ≤ r.levels, r.history[k]? =
      some (o.snapshotAt strategy schedule source (k * schedule.iterationsPerTemperature)) := by
    rw [hhistory]
    exact fun k hk => o.getElem?_history_report strategy schedule source hk
  refine ⟨hfreezes, hfreezes.pos (anneal_started h).1, congrArg RunResult.finalTemperature hreport,
    hiterations, ?_, ⟨s, hs, ?_, ?_⟩, ?_, ⟨_, hentry _ (Nat.le_refl _), ?_⟩⟩
  · rw [hhistory]
    exact o.size_history_report strategy schedule source r.levels
  · intro i hi
    exact o.inst.countUnsatisfied_eq_ok (Nat.le_of_eq (hwalk i hi).sound.size_eq.symm)
  · intro k hk
    have hle : k * schedule.iterationsPerTemperature ≤ r.iterations := by
      rw [hiterations]
      exact Nat.mul_le_mul_right _ hk
    obtain ⟨j, hj, hstanding⟩ :=
      Search.exists_firstUnbeaten fun i hi => hwalk i (Nat.le_trans hi hle)
    exact ⟨_, j, hentry k hk, rfl, hj, hstanding⟩
  · intro k l earlier later hkl hearlier hlater
    rw [hhistory] at hearlier hlater
    have hsupersedes :=
      o.supersedes_of_history_report strategy schedule source hkl hearlier hlater
    exact ⟨hsupersedes.unsatisfied_le, hsupersedes.weight_eq, hsupersedes.weight_le⟩
  · exact (congrArg (·.best.toStanding) hreport).symm

end Results

/-- Two levels of one move each. -/
def briskSchedule : Schedule Float := ⟨4.0, 0.5, 1.5, 1⟩

theorem brisk_ends :
    (anneal pairObjective .noise briskSchedule allOnes
        (none : Option (RowLog Float))).outcome.toOption.map
      (fun r => (r.levels, r.best.unsatisfied)) = some (2, 0) := by
  decide +kernel

theorem anneal_history_brisk :
    ∃ r : RunResult Float,
      (anneal pairObjective .noise briskSchedule allOnes
        (none : Option (RowLog Float))).outcome = .ok r ∧
      r.levels = 2 ∧ briskSchedule.FreezesAt 2 ∧ r.history.size = 3 ∧
      ∃ last, r.history[2]? = some last ∧ last.unsatisfied = 0 := by
  obtain ⟨r, hr, hend⟩ := exists_ok_of_map brisk_ends
  obtain ⟨hlevels, hbest⟩ := Prod.mk.inj hend
  obtain ⟨hfreezes, -, -, -, hsize, -, -, last, hlast, hstanding⟩ := anneal_history hr
  rw [hlevels] at hfreezes hsize hlast
  exact ⟨r, hr, hlevels, hfreezes, hsize, last, hlast,
    (congrArg Standing.unsatisfied hstanding).trans hbest⟩

end WeightedSat
