import WeightedSat.Proofs.Anneal.Best
import WeightedSat.Proofs.Anneal.Ending
import WeightedSat.Proofs.Weights

/-!
# A search does not fault

The states of a search are reached from its start by moves and ends of levels, whichever way the
search ends. In each of them all counts are in range: every count of moves or of levels is bounded
by the counter of moves, which is looked at before it is increased, the unsatisfied clauses are
among the clauses, and a weight is at most the total one. So no move faults as long as it can be
counted, and a search faults only if its schedule asks for more moves than there are counts.

Nothing is assumed of the scalars: penalty, noise and parameters may be anything.

## Main definitions

* `Search.Reached`: the states of a search, with the moves made at their temperatures
* `Search.InRange`: a state whose counts are in range
* `Tally.AtMost n t`: no count of the tally passes `n`

## Main results

* `Search.Reached.recounts`: the invariant of the loops holds in every state
* `Search.Reached.inRange`, `Search.Reached.iterate_ne_fault`: states are in range, and moves do not
  fault
* `exists_reached`, `anneal_reached`: a search starts unless its sink gives up at once, and one that
  reports a result closes a state that it has reached
* `anneal_never_faults`: all of this together
-/

namespace WeightedSat

variable {F ρ σ : Type} [Scalar F] [WordSource ρ]

/-! ## Counts of moves -/

/-- **At most** `n`: no count of the tally passes it. -/
structure Tally.AtMost (n : Nat) (t : Tally) : Prop where
  accepted_le : t.accepted ≤ n
  improving_le : t.improving ≤ n
  stagnation_le : t.stagnation ≤ n
  longestStagnation_le : t.longestStagnation ≤ n

theorem Tally.AtMost.add {n : Nat} {t : Tally} (h : t.AtMost n) (improving accepted : Bool) :
    (t.add improving accepted).AtMost (n + 1) := by
  obtain ⟨haccepted, himproving, hstagnation, hlongest⟩ := h
  cases improving <;> cases accepted <;> constructor <;> simp only [Tally.add] <;> grind

theorem Tally.AtMost.mono {m n : Nat} {t : Tally} (h : t.AtMost m) (hmn : m ≤ n) :
    t.AtMost n where
  accepted_le := Nat.le_trans h.accepted_le hmn
  improving_le := Nat.le_trans h.improving_le hmn
  stagnation_le := Nat.le_trans h.stagnation_le hmn
  longestStagnation_le := Nat.le_trans h.longestStagnation_le hmn

theorem Objective.tallyAt_atMost (o : Objective F) (strategy : Strategy F) (s : Schedule F)
    (source : ρ) (n : Nat) : (o.tallyAt strategy s source n).AtMost n := by
  induction n with
  | zero => exact ⟨Nat.le_refl 0, Nat.le_refl 0, Nat.le_refl 0, Nat.le_refl 0⟩
  | succ n ih => exact ih.add _ _

namespace Search

/-! ## The states of a search -/

/-- **In range**: every count of the state fits into sixty-four bits, and no more clauses are
unsatisfied than there are. -/
structure InRange (o : Objective F) (s : Search F ρ σ) : Prop where
  steps_le : s.recorder.steps ≤ maxCount
  levels_le : s.levels ≤ maxCount
  tally : s.tally.AtMost maxCount
  unsatisfied_le : s.position.unsatisfied ≤ o.inst.numClauses
  weight_le : s.position.weight ≤ maxCount
  best_unsatisfied_le : s.recorder.best.unsatisfied ≤ o.inst.numClauses
  best_weight_le : s.recorder.best.weight ≤ maxCount

variable [TraceSink F σ] (o : Objective F) (strategy : Strategy F) (schedule : Schedule F)
  (source : ρ) (sink : Option σ)

/-- **Reached states**, with the number of moves made at their temperature: the start, whose row the
sink has taken, and from there on what a move leads to and the end of a level. -/
inductive Reached : Nat → Search F ρ σ → Prop
  | start {position : Position F} {w : ρ} {recorder : Recorder σ}
    (hc : schedule.check = .ok ()) (hn : o.inst.numClauses ≠ 0)
    (hposition : o.initial.run source = .ok position w)
    (hrecorder : Recorder.start position.assignment position.toEvaluation o.inst.numClauses sink =
      .ok () recorder) :
    Reached 0 {
      source := w, recorder, position
      temperature := schedule.initialTemperature
      history := #[recorder.snapshot]
      log := #[.annealing o.inst.name schedule (schedule.stagnationBound o.inst.numVars)] }
  | move {j : Nat} {s t : Search F ρ σ} (hs : Reached j s)
    (hj : j < schedule.iterationsPerTemperature)
    (hfrozen : schedule.frozen s.temperature = false)
    (ht : (iterate o strategy).run s = .ok () t) : Reached (j + 1) t
  | level {s : Search F ρ σ} (hs : Reached schedule.iterationsPerTemperature s)
    (hfrozen : schedule.frozen s.temperature = false) : Reached 0 (endLevel schedule s)

variable {o strategy schedule source sink} {j : Nat} {s : Search F ρ σ}

theorem Reached.check_eq_ok (h : Reached o strategy schedule source sink j s) :
    schedule.check = .ok () := by
  induction h with
  | start hc => exact hc
  | move hs hj hfrozen ht ih => exact ih
  | level hs hfrozen ih => exact ih

/-- **Every state is recounted** by the walk. -/
theorem Reached.recounts (h : Reached o strategy schedule source sink j s) :
    Recounts o strategy schedule source sink j s := by
  induction h with
  | start hc hn hposition hrecorder =>
    obtain ⟨rfl, rfl⟩ := EStateM.Result.ok.inj
      (hposition.symm.trans (o.run_walk strategy schedule source 0))
    rw [start_opening o strategy schedule source sink] at hrecorder
    cases hrow : (hand (o.rowAt strategy schedule source 0)).run sink with
    | error w told =>
      rw [hrow] at hrecorder
      cases hrecorder
    | ok _ told =>
      rw [hrow] at hrecorder
      obtain ⟨-, rfl⟩ := EStateM.Result.ok.inj hrecorder
      exact Recounts.opening hrow
  | move hs hj hfrozen ht ih =>
    obtain ⟨t, w, told, htrial, hroom, hrow, rfl⟩ := iterate_eq_ok ih.follows.sound ht
    exact ih.move hj hroom htrial hrow
  | level hs hfrozen ih => exact ih.level hfrozen

theorem Reached.le_maxCount (h : Reached o strategy schedule source sink j s) : j ≤ maxCount := by
  have hsteps := h.recounts.follows.steps_eq
  have hle := h.recounts.steps_le
  omega

/-- **Every state is in range.** -/
theorem Reached.inRange (h : Reached o strategy schedule source sink j s) : s.InRange o := by
  have hcount := h.recounts
  have hpositive := schedule.iterationsPerTemperature_ne_zero h.check_eq_ok
  have hposition := hcount.follows.sound.position
  obtain ⟨k, -, hbest⟩ := hcount.follows.best_eq
  have hvisited := o.visited_sound strategy schedule source k
  constructor
  · exact hcount.steps_le
  · exact Nat.le_trans (hcount.paced.levels_le_steps hpositive) hcount.steps_le
  · rw [hcount.tally_eq]
    exact (o.tallyAt_atMost strategy schedule source _).mono hcount.steps_le
  · exact hposition.unsatisfied_le
  · rw [hposition.weight_eq]
    exact o.inst.weightOf_le_maxCount _
  · rw [hbest]
    exact hvisited.unsatisfied_le
  · rw [hbest]
    exact Nat.le_trans (Nat.le_of_eq hvisited.weight_eq) (o.inst.weightOf_le_maxCount _)

/-- **A move does not fault** as long as it can be counted. -/
theorem Reached.iterate_ne_fault (h : Reached o strategy schedule source sink j s)
    (hroom : s.recorder.steps < maxCount) (f : Fault) (t : Search F ρ σ) :
    (iterate o strategy).run s ≠ .error (.fault f) t := by
  have hsound := h.recounts.follows.sound
  obtain ⟨t, w, ht, -⟩ := o.succeeds_attempt strategy s.temperature hsound.position s.source
  rw [run_iterate hsound ht, if_neg (Nat.not_le_of_lt hroom)]
  cases (hand (s.after t w).row).run s.recorder.sink <;> simp [heard]

/-- The opening is reached once its row has been taken. -/
theorem Reached.opening (hc : schedule.check = .ok ()) (hn : o.inst.numClauses ≠ 0)
    {told : Option σ} (h : (hand (o.rowAt strategy schedule source 0)).run sink = .ok () told) :
    Reached o strategy schedule source sink 0
      ((Search.opening o schedule (o.visited strategy schedule source 0)
        (o.remaining strategy schedule source 0) sink).withSink told) :=
  Reached.start hc hn (o.run_walk strategy schedule source 0)
    ((start_opening o strategy schedule source sink).trans (congrArg _ h))

/-- **Being reached** is an invariant of the loops. -/
theorem Reached.invariant (o : Objective F) (strategy : Strategy F) (schedule : Schedule F)
    (source : ρ) (sink : Option σ) :
    Invariant o strategy schedule (Reached o strategy schedule source sink) where
  sound h := h.recounts.follows.sound
  move := by
    intro j s t w told hj hfrozen hroom hs ht hrow
    refine hs.move hj hfrozen ?_
    rw [run_iterate hs.recounts.follows.sound ht, if_neg (Nat.not_le_of_lt hroom), hrow]
    rfl
  level hfrozen hs := hs.level hfrozen

end Search

/-! ## The whole search -/

section Anneal

variable [TraceSink F σ] {o : Objective F} {strategy : Strategy F} {schedule : Schedule F}
  {source : ρ} {sink : Option σ} {r : RunResult F}

/-- **A search starts**, unless its sink refuses the first row. -/
theorem exists_reached (hc : schedule.check = .ok ()) (hn : o.inst.numClauses ≠ 0) :
    (∃ s, Search.Reached o strategy schedule source sink 0 s) ∨
      ∃ w, (anneal o strategy schedule source sink).outcome = .error (.error (.trace w)) := by
  cases hrow : (hand (o.rowAt strategy schedule source 0)).run sink with
  | ok _ told => exact .inl ⟨_, Search.Reached.opening hc hn hrow⟩
  | error w told =>
    right
    rw [anneal_eq_finish hc hn, Search.course, EStateM.run_bind, Search.run_announce_opening, hrow]
    exact ⟨w, rfl⟩

/-- **A search that reports a result** closes a state that it has reached, at a frozen
temperature. -/
theorem anneal_reached (h : (anneal o strategy schedule source sink).outcome = .ok r) :
    ∃ s, Search.Reached o strategy schedule source sink 0 s ∧
      schedule.frozen s.temperature = true ∧
      anneal o strategy schedule source sink =
        s.close o schedule (schedule.stagnationBound o.inst.numVars) := by
  obtain ⟨hc, hn⟩ := anneal_started h
  exact anneal_of_invariant (Search.Reached.invariant o strategy schedule source sink)
    (fun _ hrow => Search.Reached.opening hc hn hrow) h

variable (o strategy schedule source sink)

/-- **A search does not fault** as long as its moves can be counted, whatever its parameters are and
whatever its sink does. It faults only if its schedule asks for more moves than there are counts.
With a schedule in order and with clauses it starts, unless its sink refuses the first row; in every
state that it reaches from there all counts are in range, and a move does not fault if the counter
has room; and a result is reported from such a state. The weight of an assignment, of whatever
length, is summed in range. -/
theorem anneal_never_faults :
    (∀ f, (anneal o strategy schedule source sink).outcome = .error (.fault f) →
      f = .addOverflow ∧
        ∀ n, schedule.frozen (schedule.coolTimes n schedule.initialTemperature) = true →
          maxCount < n * schedule.iterationsPerTemperature) ∧
    (schedule.check = .ok () → o.inst.numClauses ≠ 0 →
      (∃ s, Search.Reached o strategy schedule source sink 0 s) ∨
        ∃ w, (anneal o strategy schedule source sink).outcome = .error (.error (.trace w))) ∧
    (∀ j s, Search.Reached o strategy schedule source sink j s → j ≤ maxCount ∧ s.InRange o ∧
      (s.recorder.steps < maxCount →
        ∀ f t, (Search.iterate o strategy).run s ≠ .error (.fault f) t)) ∧
    (∀ r, (anneal o strategy schedule source sink).outcome = .ok r →
      ∃ s, Search.Reached o strategy schedule source sink 0 s ∧
        schedule.frozen s.temperature = true ∧
        anneal o strategy schedule source sink =
          s.close o schedule (schedule.stagnationBound o.inst.numVars)) ∧
    ∀ a, checkedSum 0 (o.inst.setWeights a) = .ok (o.inst.weightOf a) := by
  refine ⟨fun f h => anneal_fault h, exists_reached, ?_, fun r h => anneal_reached h,
    o.inst.checkedSum_setWeights⟩
  intro j s hs
  exact ⟨hs.le_maxCount, hs.inRange, hs.iterate_ne_fault⟩

end Anneal

theorem anneal_never_faults_pair :
    (∀ f, (anneal pairObjective .greedy pairSchedule allOnes
        (some (Quota.mk 2))).outcome ≠ .error (.fault f)) ∧
      ∃ s : Search Float WordCycle (RowLog Float),
        Search.Reached pairObjective .noise pairSchedule allOnes none 0 s ∧
        s.InRange pairObjective ∧
        (s.recorder.steps < maxCount →
          ∀ f t, (Search.iterate pairObjective .noise).run s ≠ .error (.fault f) t) := by
  constructor
  · intro f h
    obtain ⟨hfault, -⟩ :=
      anneal_never_faults pairObjective .greedy pairSchedule allOnes (some (Quota.mk 2))
    have hfrozen : pairSchedule.frozen
        (pairSchedule.coolTimes 1 pairSchedule.initialTemperature) = true := by
      decide +kernel
    exact absurd ((hfault f h).2 1 hfrozen) (by decide)
  · obtain ⟨r, hr, -⟩ := exists_ok_of_map pair_ends
    obtain ⟨-, -, hrange, hreached, -⟩ :=
      anneal_never_faults pairObjective .noise pairSchedule allOnes (none : Option (RowLog Float))
    obtain ⟨s, hs, -, -⟩ := hreached r hr
    exact ⟨s, hs, (hrange 0 s hs).2⟩

end WeightedSat
