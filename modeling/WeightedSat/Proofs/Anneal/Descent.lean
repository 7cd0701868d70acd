import WeightedSat.Proofs.Anneal.Levels
import WeightedSat.Proofs.Anneal.Scaling

/-!
# The energy of the best state never rises

A search compares states in two ways: the recorder by their standings, in whole numbers and without
regard to the weight as long as a clause is unsatisfied, and the acceptance of moves by their
energies. Over exact scalars and under the default penalty, the two do not contradict each other. A
standing that beats another has no higher energy, even where a light assignment beats a heavy one
that leaves a clause unsatisfied, because no gap in weight costs more than one clause.

So the energy of the best state never rises along a search. At its end the best state has the least
energy of all states that were tried if it satisfies every clause; if it does not, the weights are
not compared, and a state as good may have less energy.

## Main definitions

* `exactForbidden`, `allZeros`: a search whose best state is as light as it can be

## Main results

* `Standing.cost_le_of_supersedes`, `Standing.cost_le_of_not_beats`: what the recorder prefers costs
  no more
* `Objective.energyOf_le_of_supersedes`, `Objective.energyOf_le_of_not_beats`: the same for energies
* `Trial.Legal.energy_lt_of_rejected`: a candidate that is rejected has more energy
* `Objective.energy_bestAt_antitone`: the energy of the best state of the walk never rises
* `Objective.energy_bestAt_le`, `Objective.energy_bestAt_le_candidate`: where it is the least
* `anneal_energies`: the energies of the best states of a search
-/

namespace WeightedSat

/-! ## Costs -/

namespace Standing

variable {s t : Standing}

theorem cost_le_of_weight_le (full : Nat) (h : s.unsatisfied = t.unsatisfied)
    (hweight : t.weight ≤ s.weight) : s.cost full ≤ t.cost full := by
  rw [cost, cost, h]
  exact Nat.add_le_add_left (Nat.sub_le_sub_left hweight full) _

/-- **What supersedes** costs no more. -/
theorem cost_le_of_supersedes (full : Nat) (h : s.Supersedes t) : s.cost full ≤ t.cost full := by
  rcases h with rfl | h
  · exact Nat.le_refl _
  rcases beats_iff.mp h with hfewer | ⟨hs, ht, hweight⟩
  · exact cost_le_of_lt full hfewer
  · exact cost_le_of_weight_le full (hs.trans ht.symm) (Nat.le_of_lt hweight)

/-- **What satisfies every clause and is not beaten** costs no more, even if the other one does not
satisfy them all. -/
theorem cost_le_of_not_beats (full : Nat) (hs : s.unsatisfied = 0) (h : ¬ t.beats s) :
    s.cost full ≤ t.cost full := by
  obtain ⟨-, hweight⟩ := not_beats_iff.mp h
  rcases Nat.eq_zero_or_pos t.unsatisfied with ht | ht
  · exact cost_le_of_weight_le full (hs.trans ht.symm) (hweight ht hs)
  · exact cost_le_of_lt full (hs ▸ ht)

end Standing

section Exact

variable {K : Type} [Field K] [LinearOrder K] [FloorSemiring K] [Elementary K]
  [IsStrictOrderedRing K]

/-! ## Energies -/

/-- **A candidate that is rejected** has more energy than the position that it was tried from. -/
theorem Trial.Legal.energy_lt_of_rejected {o : Objective K} {p : Position K} {t : Trial K}
    (ht : t.Legal o p) (hrejected : t.accepted = false) : p.energy < t.candidate.energy := by
  by_contra hle
  have hdelta : t.candidate.energy - p.energy ≤ (0.0 : K) := by
    have hzero : (0.0 : K) = 0 := by norm_num
    rw [hzero]
    exact sub_nonpos.mpr (not_lt.mp hle)
  have haccepted := ht.accepted_of_le (decide_eq_true hdelta)
  rw [hrejected] at haccepted
  cases haccepted

namespace Objective

variable {inst : Instance} {o : Objective K}

theorem energyOf_le_of_cost_le (ho : ofInstance inst = .ok o) {s t : Standing}
    (h : s.cost inst.totalWeight ≤ t.cost inst.totalWeight) :
    o.energyOf s.unsatisfied s.weight ≤ o.energyOf t.unsatisfied t.weight := by
  have hpos := o.averageWeight_pos
  rw [energyOf_eq_cost ho, energyOf_eq_cost ho]
  gcongr

theorem energyOf_le_of_supersedes (ho : ofInstance inst = .ok o) {s t : Standing}
    (h : s.Supersedes t) :
    o.energyOf s.unsatisfied s.weight ≤ o.energyOf t.unsatisfied t.weight :=
  energyOf_le_of_cost_le ho (Standing.cost_le_of_supersedes _ h)

theorem energyOf_le_of_not_beats (ho : ofInstance inst = .ok o) {s t : Standing}
    (hs : s.unsatisfied = 0) (h : ¬ t.beats s) :
    o.energyOf s.unsatisfied s.weight ≤ o.energyOf t.unsatisfied t.weight :=
  energyOf_le_of_cost_le ho (Standing.cost_le_of_not_beats _ hs h)

section Walk

variable {ρ : Type} [WordSource ρ] (strategy : Strategy K) (s : Schedule K) (source : ρ)

/-- **The best state of more moves** has no more energy than that of fewer. -/
theorem energy_bestAt_antitone (ho : ofInstance inst = .ok o) :
    Antitone fun n => (o.bestAt strategy s source n).energy o := fun _ _ hmn =>
  energyOf_le_of_supersedes ho (o.bestAt_supersedes strategy s source hmn)

/-- **A best state that satisfies every clause** has no more energy than any state until then. -/
theorem energy_bestAt_le (ho : ofInstance inst = .ok o) {i n : Nat} (hi : i ≤ n)
    (hzero : (o.bestAt strategy s source n).unsatisfied = 0) :
    (o.bestAt strategy s source n).energy o ≤ (o.visited strategy s source i).energy := by
  obtain ⟨k, hk, hbest⟩ := o.bestAt_firstUnbeaten strategy s source n
  rw [(o.visited_sound strategy s source i).energy_eq]
  rw [hbest] at hzero ⊢
  exact energyOf_le_of_not_beats ho hzero (hk.not_beats i hi)

/-- **A best state that satisfies every clause** has no more energy than any candidate until then:
either the candidate was the next state, or the state before had less energy. -/
theorem energy_bestAt_le_candidate (ho : ofInstance inst = .ok o) {i n : Nat} (hi : i < n)
    (hzero : (o.bestAt strategy s source n).unsatisfied = 0) :
    (o.bestAt strategy s source n).energy o ≤
      (o.tried strategy s source i).candidate.energy := by
  cases haccepted : (o.tried strategy s source i).accepted with
  | true =>
    rw [← o.visited_succ_of_accepted strategy s source i haccepted]
    exact energy_bestAt_le strategy s source ho hi hzero
  | false =>
    exact (energy_bestAt_le strategy s source ho (Nat.le_of_lt hi) hzero).trans
      ((o.tried_legal strategy s source i).energy_lt_of_rejected haccepted).le

end Walk

end Objective

/-! ## Searches -/

variable (K) in
/-- **The energies of a search.** Over exact scalars, an instance with weight has a default
objective, and whatever search of it reports a result, the energy of its best state never rises from
one state to a later one, nor do the energies of the entries of its history. If the best state at
the end satisfies every clause, its energy is the least of all: no state on the way has less, be it
one that leaves clauses unsatisfied, nor has any candidate, be it one that was rejected. -/
theorem anneal_energies {inst : Instance} (hweight : 0 < inst.totalWeight) :
    ∃ o : Objective K, Objective.ofInstance inst = .ok o ∧
      ∀ {ρ σ : Type} [WordSource ρ] [TraceSink K σ] (strategy : Strategy K)
        (schedule : Schedule K) (source : ρ) (sink : Option σ) (r : RunResult K),
        (anneal o strategy schedule source sink).outcome = .ok r →
        ∃ s : Nat → Search K ρ σ,
          Search.Itinerary o strategy schedule source sink r.iterations s ∧
          (s r.iterations).recorder.best = r.best ∧ r.bestEnergy = r.best.energy o ∧
          (∀ i j, i ≤ j → j ≤ r.iterations →
            (s j).recorder.best.energy o ≤ (s i).recorder.best.energy o) ∧
          (∀ (k l : Nat) (earlier later : Snapshot), k ≤ l → r.history[k]? = some earlier →
            r.history[l]? = some later →
              o.energyOf later.unsatisfied later.weight ≤
                o.energyOf earlier.unsatisfied earlier.weight) ∧
          (r.best.unsatisfied = 0 →
            (∀ i ≤ r.iterations, ∃ e, o.evaluate (s i).position.assignment = .ok e ∧
              r.bestEnergy ≤ e.energy) ∧
            ∀ i < r.iterations, ∃ t w e,
              (o.attempt strategy (s i).temperature (s i).position).run (s i).source = .ok t w ∧
              o.evaluate t.candidate.assignment = .ok e ∧ r.bestEnergy ≤ e.energy) := by
  obtain ⟨o, ho⟩ := Objective.exists_ofInstance (F := K) hweight.ne'
  refine ⟨o, ho, fun {ρ σ} _ _ strategy schedule source sink r h => ?_⟩
  obtain ⟨s, hs, hwalk, -⟩ := anneal_itinerary h
  obtain ⟨-, -, hreport, -⟩ := anneal_eq_report h
  have hhistory : r.history = (o.report strategy schedule source r.levels).history :=
    congrArg RunResult.history hreport
  have hbest : ∀ i ≤ r.iterations, (s i).recorder.best = o.bestAt strategy schedule source i :=
    fun i hi => (hwalk i hi).best_eq_bestAt
  have hend : r.best = o.bestAt strategy schedule source r.iterations := by
    have hiterations : r.iterations = r.levels * schedule.iterationsPerTemperature :=
      congrArg RunResult.iterations hreport
    rw [hiterations]
    exact congrArg RunResult.best hreport
  obtain ⟨-, -, -, henergy⟩ := anneal_best_eq h
  refine ⟨s, hs, (hbest _ (Nat.le_refl _)).trans hend.symm, henergy, ?_, ?_, fun hzero => ⟨?_, ?_⟩⟩
  · intro i j hij hj
    rw [hbest i (hij.trans hj), hbest j hj]
    exact Objective.energy_bestAt_antitone strategy schedule source ho hij
  · intro k l earlier later hkl hearlier hlater
    rw [hhistory] at hearlier hlater
    exact Objective.energyOf_le_of_supersedes ho
      (o.supersedes_of_history_report strategy schedule source hkl hearlier hlater)
  · intro i hi
    refine ⟨_, (hwalk i hi).sound.evaluate_eq_ok, ?_⟩
    rw [hend] at hzero
    rw [henergy, hend, (hwalk i hi).position_eq]
    exact Objective.energy_bestAt_le strategy schedule source ho hi hzero
  · intro i hi
    refine ⟨_, _, _, (hwalk i hi.le).run_attempt,
      (o.tried_legal strategy schedule source i).sound.evaluate_eq_ok, ?_⟩
    rw [hend] at hzero
    rw [henergy, hend]
    exact Objective.energy_bestAt_le_candidate strategy schedule source ho hi hzero

end Exact

/-- The default objective of the instance whose one clause forbids its one variable, over the
rational numbers. -/
def exactForbidden : Objective ℚ :=
  ⟨Objective.forbiddenInstance, (1 : Nat), 1, rfl, by decide, by decide⟩

/-- The source whose words are all zeros, so that every coin is true. -/
def allZeros : WordCycle := { all := [] }

theorem exactForbidden_starts :
    letI : Elementary ℚ := ⟨id, id⟩
    (match exactForbidden.initial.run allZeros with
      | .ok p _ => p.assignment
      | .error _ _ => #[]) = #[true] := by
  decide +kernel

theorem exactForbidden_ends :
    letI : Elementary ℚ := ⟨id, id⟩
    (anneal exactForbidden .noise exactSchedule allZeros
        (none : Option (RowLog ℚ))).outcome.toOption.map (fun r => (r.best, r.bestEnergy)) =
      some (⟨⟨0, 0⟩, #[false]⟩, 1) := by
  decide +kernel

/-- The search starts at the full weight, with the clause unsatisfied, and finds the assignment that
satisfies it and weighs nothing. Neither has less energy than the other. -/
theorem anneal_energies_forbidden :
    letI : Elementary ℚ := ⟨id, id⟩
    ∃ (r : RunResult ℚ) (s : Nat → Search ℚ WordCycle (RowLog ℚ)),
      0 < Objective.forbiddenInstance.totalWeight ∧
      (anneal exactForbidden .noise exactSchedule allZeros
        (none : Option (RowLog ℚ))).outcome = .ok r ∧
      Search.Itinerary exactForbidden .noise exactSchedule allZeros none r.iterations s ∧
      (s 0).position.assignment = #[true] ∧
      exactForbidden.evaluate #[true] = .ok ⟨⟨1, 1⟩, 1⟩ ∧
      r.best = ⟨⟨0, 0⟩, #[false]⟩ ∧ r.bestEnergy = 1 ∧
      (s r.iterations).recorder.best.energy exactForbidden ≤
        (s 0).recorder.best.energy exactForbidden ∧
      ∀ i ≤ r.iterations, ∃ e, exactForbidden.evaluate (s i).position.assignment = .ok e ∧
        1 ≤ e.energy := by
  let elementary : Elementary ℚ := ⟨id, id⟩
  have hweight : 0 < Objective.forbiddenInstance.totalWeight := by decide
  obtain ⟨o, ho, hruns⟩ := anneal_energies ℚ hweight
  obtain rfl : exactForbidden = o := Except.ok.inj ho
  obtain ⟨r, hr, hend⟩ := exists_ok_of_map exactForbidden_ends
  obtain ⟨hbest, henergy⟩ := Prod.mk.inj hend
  obtain ⟨s, hs, -, -, hfalling, -, hleast⟩ := hruns _ _ _ _ r hr
  have hzero : r.best.unsatisfied = 0 := by rw [hbest]
  have hstart := exactForbidden_starts
  rw [hs.initial] at hstart
  rw [henergy] at hleast
  exact ⟨r, s, hweight, hr, hs, hstart, by decide +kernel, hbest, henergy,
    hfalling 0 _ (Nat.zero_le _) (Nat.le_refl _), (hleast hzero).1⟩

end WeightedSat
