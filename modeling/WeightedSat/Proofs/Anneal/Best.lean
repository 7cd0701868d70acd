import WeightedSat.Proofs.Anneal.Itinerary
import WeightedSat.Random.WordCycle

/-!
# The best state of a search

A search reports the first of the states that it has passed through that none of them beats. Its
counts are not computed again at the end: they are those that were taken when the state was
visited, and they are still those of the assignment that is reported, since nothing but a visited
position ever replaces the best state.

## Main definitions

* `Best.Belongs`: the assignment is one for the instance, and the standing is its own
* `pairInstance`, `pairObjective`, `pairSchedule`, `allOnes`: a search of two moves

## Main results

* `anneal_belongs`, `anneal_iterations_eq`: what every result has, whatever the search was
* `anneal_best`: the best state among those on the itinerary
-/

namespace WeightedSat

variable {F ρ σ : Type}

/-- **Belonging**: the assignment covers exactly the variables of the instance, and the standing
kept with it is its own. -/
structure Best.Belongs (b : Best) (inst : Instance) : Prop where
  size_eq : b.assignment.size = inst.numVars
  countUnsatisfied_eq : inst.countUnsatisfied b.assignment = .ok b.unsatisfied
  weight_eq : b.weight = inst.weightOf b.assignment

section Belonging

variable [Scalar F] {o : Objective F}

theorem Position.Sound.belongs {p : Position F} (h : p.Sound o) : p.toBest.Belongs o.inst where
  size_eq := h.size_eq
  countUnsatisfied_eq := h.countUnsatisfied_eq_ok
  weight_eq := h.weight_eq

theorem Best.Belongs.unsatisfied_le {b : Best} {inst : Instance} (h : b.Belongs inst) :
    b.unsatisfied ≤ inst.numClauses := by
  have hcount := inst.countUnsatisfied_eq_ok (Nat.le_of_eq h.size_eq.symm)
  rw [h.countUnsatisfied_eq] at hcount
  rw [Except.ok.inj hcount]
  exact inst.numUnsatisfied_le b.assignment

theorem Best.Belongs.evaluate_eq {b : Best} (h : b.Belongs o.inst) :
    o.evaluate b.assignment =
      .ok { unsatisfied := b.unsatisfied, weight := b.weight, energy := b.energy o } := by
  unfold Objective.evaluate
  rw [h.countUnsatisfied_eq, ← h.weight_eq]
  rfl

end Belonging

section Results

variable [Scalar F] [WordSource ρ] [TraceSink F σ] {o : Objective F} {strategy : Strategy F}
  {schedule : Schedule F} {source : ρ} {sink : Option σ} {r : RunResult F}

theorem anneal_best_eq (h : (anneal o strategy schedule source sink).outcome = .ok r) :
    ∃ k, FirstUnbeaten (fun i => (o.visited strategy schedule source i).toStanding)
        r.iterations k ∧
      r.best = (o.visited strategy schedule source k).toBest ∧ r.bestEnergy = r.best.energy o := by
  obtain ⟨s, hs, -, -, hclose⟩ := anneal_travelled h
  rw [hclose] at h
  obtain rfl := Except.ok.inj h
  obtain ⟨k, hk, hbest⟩ := hs.follows.best_eq
  exact ⟨k, hk, hbest, rfl⟩

/-- **The best state belongs to the instance** that was searched. -/
theorem anneal_belongs (h : (anneal o strategy schedule source sink).outcome = .ok r) :
    r.best.Belongs o.inst := by
  obtain ⟨k, -, hbest, -⟩ := anneal_best_eq h
  rw [hbest]
  exact (o.visited_sound strategy schedule source k).belongs

theorem anneal_iterations_eq (h : (anneal o strategy schedule source sink).outcome = .ok r) :
    r.schedule = schedule ∧ r.iterations = r.levels * r.schedule.iterationsPerTemperature := by
  obtain ⟨s, hs, -, -, hclose⟩ := anneal_travelled h
  rw [hclose] at h
  obtain rfl := Except.ok.inj h
  exact ⟨rfl, hs.follows.steps_eq⟩

/-- **The best state of a search** is, of the states that it has passed through, the first that no
other beats: none leaves fewer clauses unsatisfied, and if it satisfies all, none that does so
weighs more. It covers the variables, its counts are its own, and its energy is the one that its
assignment is evaluated to. -/
theorem anneal_best (h : (anneal o strategy schedule source sink).outcome = .ok r) :
    ∃ s : Nat → Search F ρ σ,
      Search.Itinerary o strategy schedule source sink r.iterations s ∧
      anneal o strategy schedule source sink =
        (s r.iterations).close o schedule (schedule.stagnationBound o.inst.numVars) ∧
      (∀ i ≤ r.iterations, (s i).position.assignment.size = o.inst.numVars ∧
        o.inst.countUnsatisfied (s i).position.assignment =
          .ok (o.inst.numUnsatisfied (s i).position.assignment)) ∧
      (∃ k, FirstUnbeaten (fun i => o.inst.standing (s i).position.assignment) r.iterations k ∧
        r.best.assignment = (s k).position.assignment) ∧
      (∀ i ≤ r.iterations,
        r.best.unsatisfied ≤ o.inst.numUnsatisfied (s i).position.assignment) ∧
      (r.best.unsatisfied = 0 → ∀ i ≤ r.iterations,
        o.inst.numUnsatisfied (s i).position.assignment = 0 →
          o.inst.weightOf (s i).position.assignment ≤ r.best.weight) ∧
      r.best.assignment.size = o.inst.numVars ∧
      o.inst.countUnsatisfied r.best.assignment = .ok r.best.unsatisfied ∧
      r.best.weight = o.inst.weightOf r.best.assignment ∧
      o.evaluate r.best.assignment = .ok {
        unsatisfied := r.best.unsatisfied, weight := r.best.weight, energy := r.bestEnergy } := by
  obtain ⟨s, hs, hwalk, -, hclose⟩ := anneal_itinerary h
  obtain ⟨k, hk, hbest, henergy⟩ := anneal_best_eq h
  have hbelongs := anneal_belongs h
  have hstanding : ∀ i ≤ r.iterations,
      (o.visited strategy schedule source i).toStanding =
        o.inst.standing (s i).position.assignment := by
    intro i hi
    rw [← (hwalk i hi).position_eq]
    exact (hwalk i hi).sound.toStanding_eq
  have hk' : FirstUnbeaten (fun i => o.inst.standing (s i).position.assignment) r.iterations k :=
    hk.congr hstanding
  have hassignment : r.best.assignment = (s k).position.assignment := by
    rw [hbest, (hwalk k hk.le).position_eq]
    rfl
  have hkept : r.best.toStanding = o.inst.standing (s k).position.assignment := by
    rw [hbest]
    exact hstanding k hk.le
  have hunsatisfied := congrArg Standing.unsatisfied hkept
  have hweight := congrArg Standing.weight hkept
  refine ⟨s, hs, hclose, ?_, ⟨k, hk', hassignment⟩, ?_, ?_, hbelongs.size_eq,
    hbelongs.countUnsatisfied_eq, hbelongs.weight_eq, ?_⟩
  · intro i hi
    have hsize := (hwalk i hi).sound.size_eq
    exact ⟨hsize, o.inst.countUnsatisfied_eq_ok (Nat.le_of_eq hsize.symm)⟩
  · intro i hi
    rw [hunsatisfied]
    exact hk'.unsatisfied_le hi
  · intro hzero i hi hi₀
    rw [hunsatisfied] at hzero
    rw [hweight]
    exact hk'.weight_le hzero hi hi₀
  · rw [henergy]
    exact hbelongs.evaluate_eq

end Results

/-! ## A search of two moves -/

/-- Two variables, each with a clause that asks for it. -/
def pairInstance : Instance where
  name := "pair"
  numVars := 2
  declaredClauses := 2
  weights := [3, 5]
  clauses := [⟨[⟨0, true⟩], by decide⟩, ⟨[⟨1, true⟩], by decide⟩]
  numVars_lt := by decide
  length_weights := rfl
  total_weights_le := by decide
  var_lt := by decide

def pairObjective : Objective Float :=
  ⟨pairInstance, 8.0, 8, rfl, by decide, by decide⟩

/-- One level of two moves. -/
def pairSchedule : Schedule Float := ⟨2.0, 0.5, 1.5, 2⟩

/-- The source whose words are all ones, so that every coin is false. -/
def allOnes : WordCycle :=
  { all := [0xFFFFFFFFFFFFFFFF] }

theorem pair_ends :
    (anneal pairObjective .noise pairSchedule allOnes
        (none : Option (RowLog Float))).outcome.toOption.map
      (fun r => (r.iterations, r.best.assignment)) = some (2, #[true, true]) := by
  decide +kernel

theorem anneal_best_pair :
    ∃ (r : RunResult Float) (s : Nat → Search Float WordCycle (RowLog Float)),
      (anneal pairObjective .noise pairSchedule allOnes
        (none : Option (RowLog Float))).outcome = .ok r ∧
      r.iterations = 2 ∧ Search.Itinerary pairObjective .noise pairSchedule allOnes none 2 s ∧
      ∃ k, FirstUnbeaten (fun i => pairInstance.standing (s i).position.assignment) 2 k ∧
        (s k).position.assignment = #[true, true] := by
  obtain ⟨r, hr, hend⟩ := exists_ok_of_map pair_ends
  obtain ⟨hn, ha⟩ := Prod.mk.inj hend
  obtain ⟨s, hs, -, -, ⟨k, hk, hbest⟩, -⟩ := anneal_best hr
  rw [hn] at hs hk
  exact ⟨r, s, hr, hn, hs, k, hk, hbest.symm.trans ha⟩

end WeightedSat
