import WeightedSat.Proofs.Anneal.Report
import WeightedSat.Proofs.Anneal.Silence
import WeightedSat.Proofs.Comparison

/-!
# Annealing longer

The minimum temperature of a schedule only says where its search ends: the temperatures of the
moves do not depend on it, and so the walk does not. With a lower minimum the search therefore goes
on along the same walk, and what it reports can only grow: its rows and its history get longer, its
counts do not fall, and its best state is not beaten by the one that it had before.

The current run of rejections is no such count, since the next accepted move ends it.

## Main definitions

* `Tally.Within`: no count that only grows is smaller

## Main results

* `Schedule.FreezesAt.le_of_min_le`: a higher minimum ends earlier
* `Objective.visited_congr`, `Objective.tried_congr`: schedules with the same temperatures have the
  same walk
* `Objective.tallyAt_within`, `Objective.snapshots_prefix_of_le`, `Objective.not_beats_bestAt`: what
  the walk makes after more moves
* `anneal_longer`: a search with a lower minimum temperature
-/

namespace WeightedSat

variable {F ρ σ τ : Type} [Scalar F]

/-! ## Schedules with the same temperatures -/

theorem Schedule.coolTimes_withMin (s : Schedule F) (m : F) (n : Nat) (t : F) :
    ({ s with minTemperature := m } : Schedule F).coolTimes n t = s.coolTimes n t := by
  induction n generalizing t with
  | zero => rfl
  | succ n ih => exact ih (s.cool t)

theorem Schedule.temperatureAt_withMin (s : Schedule F) (m : F) (i : Nat) :
    ({ s with minTemperature := m } : Schedule F).temperatureAt i = s.temperatureAt i :=
  s.coolTimes_withMin m (i / s.iterationsPerTemperature) s.initialTemperature

/-- **A higher minimum ends earlier**: what is frozen under the lower one is frozen under it. -/
theorem Schedule.FreezesAt.le_of_min_le [Scalar.LawfulLE F] {s : Schedule F} {m₁ m₂ : F}
    {n₁ n₂ : Nat} (h₂ : ({ s with minTemperature := m₂ } : Schedule F).FreezesAt n₂)
    (hm : Scalar.le m₁ m₂ = true)
    (h₁ : ({ s with minTemperature := m₁ } : Schedule F).FreezesAt n₁) : n₂ ≤ n₁ := by
  apply h₂.le
  have hfrozen := h₁.frozen
  rw [s.coolTimes_withMin] at hfrozen ⊢
  exact Scalar.LawfulLE.le_trans hfrozen hm

theorem ending_congr {ε ρ α : Type} {x y : EStateM.Result ε ρ α} (h : x = y)
    (hx : ∃ a t, x = .ok a t) (hy : ∃ a t, y = .ok a t) : ending hx = ending hy := by
  subst h
  rfl

namespace Objective

variable [WordSource ρ] (o : Objective F) (strategy : Strategy F) {s s' : Schedule F}
  (source : ρ)

section Congr

variable (h : ∀ i, s.temperatureAt i = s'.temperatureAt i)
include h

/-- **The walk depends on a schedule only through its temperatures.** -/
theorem walk_congr (i : Nat) :
    (o.walk strategy s i : EStateM Fault ρ (Position F)) = o.walk strategy s' i := by
  induction i with
  | zero => rfl
  | succ i ih => rw [walk, walk, ih, h i]

theorem visited_congr (i : Nat) :
    o.visited strategy s source i = o.visited strategy s' source i :=
  congrArg Prod.fst (ending_congr (by rw [o.walk_congr strategy h i]) _ _)

theorem tried_congr (i : Nat) : o.tried strategy s source i = o.tried strategy s' source i := by
  refine congrArg Prod.fst (ending_congr ?_ _ _)
  rw [trialAt, trialAt, o.walk_congr strategy h i, h i]

theorem tallyAt_congr (n : Nat) :
    o.tallyAt strategy s source n = o.tallyAt strategy s' source n := by
  induction n with
  | zero => rfl
  | succ n ih => simp only [tallyAt, ih, o.tried_congr strategy source h n]

theorem bestAt_congr (n : Nat) :
    o.bestAt strategy s source n = o.bestAt strategy s' source n := by
  induction n with
  | zero => simp only [bestAt, o.visited_congr strategy source h]
  | succ n ih => simp only [bestAt, ih, o.visited_congr strategy source h]

theorem rows_congr (n : Nat) : o.rows strategy s source n = o.rows strategy s' source n := by
  unfold rows rowAt
  simp only [o.visited_congr strategy source h]

theorem snapshots_congr (hn : s.iterationsPerTemperature = s'.iterationsPerTemperature)
    (levels : Nat) :
    o.snapshots strategy s source levels = o.snapshots strategy s' source levels := by
  unfold snapshots snapshotAt
  simp only [o.bestAt_congr strategy source h, hn]

end Congr

end Objective

/-! ## More moves -/

/-- **Within**: the counts that only grow are not smaller in the second tally. -/
structure Tally.Within (t u : Tally) : Prop where
  accepted_le : t.accepted ≤ u.accepted
  improving_le : t.improving ≤ u.improving
  longestStagnation_le : t.longestStagnation ≤ u.longestStagnation

theorem Tally.within_add (improving accepted : Bool) (t : Tally) :
    t.Within (t.add improving accepted) := by
  cases improving <;> cases accepted <;> constructor <;> simp [Tally.add]

theorem Tally.Within.trans {t u v : Tally} (h : t.Within u) (h' : u.Within v) : t.Within v where
  accepted_le := h.accepted_le.trans h'.accepted_le
  improving_le := h.improving_le.trans h'.improving_le
  longestStagnation_le := h.longestStagnation_le.trans h'.longestStagnation_le

theorem range_prefix_of_le {m n : Nat} (h : m ≤ n) : List.range m <+: List.range n := by
  obtain ⟨k, rfl⟩ := Nat.exists_eq_add_of_le h
  rw [List.range_add]
  exact List.prefix_append _ _

namespace Objective

variable [WordSource ρ] (o : Objective F) (strategy : Strategy F) (s : Schedule F) (source : ρ)
  {m n : Nat}

theorem tallyAt_within (h : m ≤ n) :
    (o.tallyAt strategy s source m).Within (o.tallyAt strategy s source n) := by
  induction n, h using Nat.le_induction with
  | base => exact ⟨Nat.le_refl _, Nat.le_refl _, Nat.le_refl _⟩
  | succ n h ih => exact ih.trans (Tally.within_add _ _ _)

theorem rows_prefix_of_le (h : m ≤ n) :
    o.rows strategy s source m <+: o.rows strategy s source n :=
  (range_prefix_of_le h).map _

theorem snapshots_prefix_of_le (h : m ≤ n) :
    o.snapshots strategy s source m <+: o.snapshots strategy s source n :=
  (range_prefix_of_le (Nat.succ_le_succ h)).map _

/-- **The best state is not beaten by an earlier one.** -/
theorem not_beats_bestAt (h : m ≤ n) :
    ¬ (o.bestAt strategy s source m).beats (o.bestAt strategy s source n).toStanding := by
  obtain ⟨k, hk, hbest⟩ := o.bestAt_firstUnbeaten strategy s source m
  obtain ⟨k', hk', hbest'⟩ := o.bestAt_firstUnbeaten strategy s source n
  rw [hbest, hbest']
  exact hk'.not_beats k (hk.le.trans h)

end Objective

/-! ## A lower minimum temperature -/

section Anneal

variable [WordSource ρ] [TraceSink F σ] [TraceSink F τ] {o : Objective F} {strategy : Strategy F}
  {s : Schedule F} {source : ρ} {r₁ r₂ : RunResult F}

/-- **Annealing longer.** If two searches under schedules that differ only in the minimum
temperature both report a result, then the one with the lower minimum extends the other: the rows
and the history of the other come first in its own, it has no fewer levels, moves, accepted or
improving moves and no shorter longest run of rejections, and its best state is not beaten by that
of the other. -/
theorem anneal_longer [Scalar.LawfulLE F] {m₁ m₂ : F} (hm : Scalar.le m₁ m₂ = true)
    {k₁ : Option σ} {k₂ : Option τ}
    (h₁ : (anneal o strategy { s with minTemperature := m₁ } source k₁).outcome = .ok r₁)
    (h₂ : (anneal o strategy { s with minTemperature := m₂ } source k₂).outcome = .ok r₂) :
    (∃ rows₁ rows₂ : List (TraceRow F),
      rows₁.length = r₁.iterations + 1 ∧ rows₂.length = r₂.iterations + 1 ∧
      (feed rows₁).run k₁ =
        .ok () (anneal o strategy { s with minTemperature := m₁ } source k₁).sink ∧
      (feed rows₂).run k₂ =
        .ok () (anneal o strategy { s with minTemperature := m₂ } source k₂).sink ∧
      (anneal o strategy { s with minTemperature := m₁ } source (some ({} : RowLog F))).sink =
        some ⟨rows₁.toArray⟩ ∧
      (anneal o strategy { s with minTemperature := m₂ } source (some ({} : RowLog F))).sink =
        some ⟨rows₂.toArray⟩ ∧
      rows₂ <+: rows₁) ∧
    r₂.history.toList <+: r₁.history.toList ∧
    r₂.levels ≤ r₁.levels ∧ r₂.iterations ≤ r₁.iterations ∧
    r₂.tally.accepted ≤ r₁.tally.accepted ∧ r₂.tally.improving ≤ r₁.tally.improving ∧
    r₂.tally.longestStagnation ≤ r₁.tally.longestStagnation ∧
    ¬ r₂.best.beats r₁.best.toStanding := by
  obtain ⟨hfreezes₁, -, hr₁, -⟩ := anneal_eq_report h₁
  obtain ⟨hfreezes₂, -, hr₂, -⟩ := anneal_eq_report h₂
  have htemperature : ∀ i, ({ s with minTemperature := m₂ } : Schedule F).temperatureAt i =
      ({ s with minTemperature := m₁ } : Schedule F).temperatureAt i := fun i =>
    (s.temperatureAt_withMin m₂ i).trans (s.temperatureAt_withMin m₁ i).symm
  have hlevels : r₂.levels ≤ r₁.levels := hfreezes₂.le_of_min_le hm hfreezes₁
  have hmoves : r₂.levels * s.iterationsPerTemperature ≤
      r₁.levels * s.iterationsPerTemperature := Nat.mul_le_mul_right _ hlevels
  have hiterations₁ : r₁.iterations = r₁.levels * s.iterationsPerTemperature := by rw [hr₁]; rfl
  have hiterations₂ : r₂.iterations = r₂.levels * s.iterationsPerTemperature := by rw [hr₂]; rfl
  have hwithin : r₂.tally.Within r₁.tally := by
    rw [hr₁, hr₂]
    show (o.tallyAt strategy _ source _).Within _
    rw [o.tallyAt_congr strategy source htemperature]
    exact o.tallyAt_within strategy _ source hmoves
  refine ⟨⟨_, _, o.length_rows strategy _ source _, o.length_rows strategy _ source _,
    anneal_feed h₁, anneal_feed h₂, (anneal_rowLog h₁).2, (anneal_rowLog h₂).2, ?_⟩, ?_, hlevels,
    ?_, hwithin.accepted_le, hwithin.improving_le, hwithin.longestStagnation_le, ?_⟩
  · rw [o.rows_congr strategy source htemperature]
    apply o.rows_prefix_of_le
    omega
  · rw [hr₁, hr₂]
    show o.snapshots strategy _ source _ <+: o.snapshots strategy _ source _
    rw [o.snapshots_congr strategy source htemperature rfl]
    exact o.snapshots_prefix_of_le strategy _ source hlevels
  · omega
  · rw [hr₁, hr₂]
    show ¬ (o.bestAt strategy _ source _).beats (o.bestAt strategy _ source _).toStanding
    rw [o.bestAt_congr strategy source htemperature]
    exact o.not_beats_bestAt strategy _ source hmoves

end Anneal

/-- Levels of one move each. -/
def briefSchedule : Schedule Float := { pairSchedule with iterationsPerTemperature := 1 }

theorem brief_ends :
    (anneal pairObjective .noise { briefSchedule with minTemperature := 1.5 } allOnes
        (none : Option (RowLog Float))).outcome.toOption.map
      (fun r => (r.levels, r.best.assignment)) = some (1, #[false, true]) := by
  decide +kernel

theorem brief_ends_later :
    (anneal pairObjective .noise { briefSchedule with minTemperature := 0.75 } allOnes
        (none : Option (RowLog Float))).outcome.toOption.map
      (fun r => (r.levels, r.best.assignment)) = some (2, #[true, true]) := by
  decide +kernel

theorem anneal_longer_brief :
    ∃ r₁ r₂ : RunResult Float,
      (anneal pairObjective .noise { briefSchedule with minTemperature := 0.75 } allOnes
        (none : Option (RowLog Float))).outcome = .ok r₁ ∧
      (anneal pairObjective .noise { briefSchedule with minTemperature := 1.5 } allOnes
        (none : Option (RowLog Float))).outcome = .ok r₂ ∧
      r₁.best.assignment = #[true, true] ∧ r₂.best.assignment = #[false, true] ∧
      r₁.levels = 2 ∧ r₂.levels = 1 ∧ r₂.history.toList <+: r₁.history.toList ∧
      ¬ r₂.best.beats r₁.best.toStanding := by
  obtain ⟨r₁, h₁, hend₁⟩ := exists_ok_of_map brief_ends_later
  obtain ⟨r₂, h₂, hend₂⟩ := exists_ok_of_map brief_ends
  obtain ⟨hlevels₁, hbest₁⟩ := Prod.mk.inj hend₁
  obtain ⟨hlevels₂, hbest₂⟩ := Prod.mk.inj hend₂
  have hm : Scalar.le (0.75 : Float) 1.5 = true := by decide +kernel
  obtain ⟨-, hhistory, -, -, -, -, -, hbest⟩ := anneal_longer (s := briefSchedule) hm h₁ h₂
  exact ⟨r₁, r₂, h₁, h₂, hbest₁, hbest₂, hlevels₁, hlevels₂, hhistory, hbest⟩

end WeightedSat
