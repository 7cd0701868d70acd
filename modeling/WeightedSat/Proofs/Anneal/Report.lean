import WeightedSat.Proofs.Anneal.Course

/-!
# A result is read off the walk

Nothing in the result of a search depends on how the search was run: the counts of its moves, its
best state and its history are those of the walk, and the number of its levels says how much of the
walk there is to look at. So a result is a function of the walk and of that number, which is the
first level at whose temperature the schedule is frozen.

## Main definitions

* `Schedule.FreezesAt s n`: after `n` levels, and not before, the schedule is frozen
* `Objective.tallyAt`, `Objective.bestAt`, `Objective.snapshots`: the counts, the best state and the
  history of the walk
* `Objective.report`: the result that the walk makes after a number of levels
* `Search.Recounts`: the invariant that a search keeps what the walk says

## Main results

* `Search.Recounts.invariant`: moves and ends of levels keep it
* `anneal_eq_report`: the result of a search
-/

namespace WeightedSat

variable {F ρ σ : Type} [Scalar F]

/-- **Freezing**: the schedule is frozen after `n` levels, and not after fewer. -/
structure Schedule.FreezesAt (s : Schedule F) (n : Nat) : Prop where
  frozen : s.frozen (s.coolTimes n s.initialTemperature) = true
  warm : ∀ l < n, s.frozen (s.coolTimes l s.initialTemperature) = false

namespace Schedule.FreezesAt

variable {s : Schedule F} {m n : Nat}

theorem le (h : s.FreezesAt n) (hm : s.frozen (s.coolTimes m s.initialTemperature) = true) :
    n ≤ m := by
  refine Nat.le_of_not_lt fun hlt => ?_
  have hwarm := h.warm m hlt
  rw [hm] at hwarm
  cases hwarm

theorem unique (h : s.FreezesAt n) (h' : s.FreezesAt m) : n = m :=
  Nat.le_antisymm (h.le h'.frozen) (h'.le h.frozen)

end Schedule.FreezesAt

/-- A schedule that is ever frozen freezes. -/
theorem Schedule.exists_freezesAt_le {s : Schedule F} {n : Nat}
    (h : s.frozen (s.coolTimes n s.initialTemperature) = true) : ∃ m ≤ n, s.FreezesAt m := by
  induction n using Nat.strongRecOn with
  | ind n ih =>
    by_cases hwarm : ∀ l < n, s.frozen (s.coolTimes l s.initialTemperature) = false
    · exact ⟨n, Nat.le_refl n, h, hwarm⟩
    · obtain ⟨l, hl, hfrozen⟩ :
          ∃ l < n, s.frozen (s.coolTimes l s.initialTemperature) = true := by
        simpa using hwarm
      obtain ⟨m, hm, hfreezes⟩ := ih l hl hfrozen
      exact ⟨m, by omega, hfreezes⟩

/-! ## What the walk makes -/

section Walk

variable [WordSource ρ] (o : Objective F) (strategy : Strategy F) (s : Schedule F) (source : ρ)

namespace Objective

/-- The tally of the first `n` moves. -/
def tallyAt : Nat → Tally
  | 0 => {}
  | n + 1 =>
    let t := o.tried strategy s source n
    (tallyAt n).add t.improving t.accepted

/-- The best state of the first `n` moves: each position replaces it that beats it. -/
def bestAt : Nat → Best
  | 0 => (o.visited strategy s source 0).toBest
  | n + 1 =>
    let p := o.visited strategy s source (n + 1)
    if p.toStanding.beats (bestAt n).toStanding then p.toBest else bestAt n

/-- The standing of the best state of the first `n` moves. -/
def snapshotAt (n : Nat) : Snapshot := { o.bestAt strategy s source n with step := n }

/-- The history after a number of levels: at the start, and at the end of each level. -/
def snapshots (levels : Nat) : List Snapshot :=
  (List.range (levels + 1)).map fun l =>
    o.snapshotAt strategy s source (l * s.iterationsPerTemperature)

/-- **Report**: the result that the walk makes after a number of levels. -/
def report (levels : Nat) : RunResult F :=
  let n := levels * s.iterationsPerTemperature
  let best := o.bestAt strategy s source n
  { best
    bestEnergy := best.energy o
    schedule := s
    iterations := n
    levels
    finalTemperature := s.coolTimes levels s.initialTemperature
    tally := o.tallyAt strategy s source n
    stagnationBound := s.stagnationBound o.inst.numVars
    history := (o.snapshots strategy s source levels).toArray }

theorem snapshots_succ (levels : Nat) :
    o.snapshots strategy s source (levels + 1) = o.snapshots strategy s source levels ++
      [o.snapshotAt strategy s source ((levels + 1) * s.iterationsPerTemperature)] := by
  rw [snapshots, List.range_succ, List.map_append]
  rfl

/-- **The best state of the walk** is the first position that none of those passed beats. -/
theorem bestAt_firstUnbeaten (n : Nat) :
    ∃ k, FirstUnbeaten (fun i => (o.visited strategy s source i).toStanding) n k ∧
      o.bestAt strategy s source n = (o.visited strategy s source k).toBest := by
  induction n with
  | zero => exact ⟨0, FirstUnbeaten.zero _, rfl⟩
  | succ n ih =>
    obtain ⟨k, hk, hbest⟩ := ih
    simp only [bestAt, hbest]
    split
    · next hbeats => exact ⟨n + 1, hk.succ_of_beats hbeats, rfl⟩
    · next hbeats => exact ⟨k, hk.succ_of_not_beats hbeats, rfl⟩

end Objective

end Walk

/-! ## The invariant -/

namespace Search

variable [WordSource ρ] [TraceSink F σ] (o : Objective F) (strategy : Strategy F)
  (schedule : Schedule F) (source : ρ) (sink : Option σ)

/-- **Recounting**: the search follows the walk, and what it has counted and noted is what the walk
says. No level that has ended was frozen, and the counter of moves has had room. -/
structure Recounts (j : Nat) (s : Search F ρ σ) : Prop where
  follows : Follows o strategy schedule source sink j s
  tally_eq : s.tally = o.tallyAt strategy schedule source s.recorder.steps
  history_eq : s.history.toList = o.snapshots strategy schedule source s.levels
  warm : ∀ l < s.levels,
    schedule.frozen (schedule.coolTimes l schedule.initialTemperature) = false
  steps_le : s.recorder.steps ≤ maxCount

variable {o strategy schedule source sink}

theorem Follows.best_eq_bestAt {j : Nat} {s : Search F ρ σ}
    (h : Follows o strategy schedule source sink j s) :
    s.recorder.best = o.bestAt strategy schedule source s.recorder.steps := by
  obtain ⟨k, hk, hbest⟩ := h.best_eq
  obtain ⟨k', hk', hbest'⟩ := o.bestAt_firstUnbeaten strategy schedule source s.recorder.steps
  rw [hbest, hbest', hk.unique hk']

theorem Follows.trial_eq {j : Nat} {s : Search F ρ σ} {t : Trial F} {w : ρ}
    (h : Follows o strategy schedule source sink j s)
    (hj : j < schedule.iterationsPerTemperature)
    (ht : (o.attempt strategy s.temperature s.position).run s.source = .ok t w) :
    t = o.tried strategy schedule source s.recorder.steps ∧
      w = o.remaining strategy schedule source (s.recorder.steps + 1) := by
  rw [h.temperatureAt_steps hj, h.position_eq, h.source_eq, o.run_attempt] at ht
  obtain ⟨rfl, rfl⟩ := EStateM.Result.ok.inj ht
  exact ⟨rfl, rfl⟩

/-- **A move** is recounted: the tally counts its trial. -/
theorem Recounts.move {j : Nat} {s : Search F ρ σ} {t : Trial F} {w : ρ} {told : Option σ}
    (h : Recounts o strategy schedule source sink j s)
    (hj : j < schedule.iterationsPerTemperature) (hfull : s.recorder.steps < maxCount)
    (ht : (o.attempt strategy s.temperature s.position).run s.source = .ok t w)
    (hrow : (hand (s.after t w).row).run s.recorder.sink = .ok () told) :
    Recounts o strategy schedule source sink (j + 1) ((s.after t w).withSink told) := by
  obtain ⟨htrial, -⟩ := h.follows.trial_eq hj ht
  have hsteps : ((s.after t w).withSink told).recorder.steps = s.recorder.steps + 1 :=
    after_steps t w s
  constructor
  · exact h.follows.move hj ht hrow
  · show s.tally.add t.improving t.accepted = _
    rw [hsteps, h.tally_eq, htrial]
    rfl
  · exact h.history_eq
  · exact h.warm
  · rw [hsteps]
    exact hfull

/-- **The end of a level** is recounted: the history notes the best state. -/
theorem Recounts.level {s : Search F ρ σ}
    (h : Recounts o strategy schedule source sink schedule.iterationsPerTemperature s)
    (hfrozen : schedule.frozen s.temperature = false) :
    Recounts o strategy schedule source sink 0 (endLevel schedule s) := by
  have hsteps : s.recorder.steps = (s.levels + 1) * schedule.iterationsPerTemperature := by
    rw [h.follows.steps_eq, Nat.succ_mul]
  have hsnapshot : s.recorder.snapshot =
      o.snapshotAt strategy schedule source s.recorder.steps := by
    rw [Recorder.snapshot, h.follows.best_eq_bestAt]
    rfl
  constructor
  · exact h.follows.level
  · exact h.tally_eq
  · show (s.history.push s.recorder.snapshot).toList = _
    rw [Array.toList_push, h.history_eq, hsnapshot, hsteps]
    exact (o.snapshots_succ strategy schedule source s.levels).symm
  · intro l hl
    rcases Nat.lt_succ_iff_lt_or_eq.mp hl with hl | rfl
    · exact h.warm l hl
    · rw [← h.follows.temperature_eq]
      exact hfrozen
  · exact h.steps_le

theorem Recounts.invariant (o : Objective F) (strategy : Strategy F) (schedule : Schedule F)
    (source : ρ) (sink : Option σ) :
    Invariant o strategy schedule (Recounts o strategy schedule source sink) where
  sound h := h.follows.sound
  move hj _ hfull h ht hrow := h.move hj hfull ht hrow
  level hfrozen h := h.level hfrozen

theorem Recounts.opening {told : Option σ}
    (h : (hand (o.rowAt strategy schedule source 0)).run sink = .ok () told) :
    Recounts o strategy schedule source sink 0
      ((Search.opening o schedule (o.visited strategy schedule source 0)
        (o.remaining strategy schedule source 0) sink).withSink told) where
  follows := Follows.opening h
  tally_eq := rfl
  history_eq := by
    show [_] = [o.snapshotAt strategy schedule source (0 * schedule.iterationsPerTemperature)]
    rw [Nat.zero_mul]
    rfl
  warm l hl := absurd hl (Nat.not_lt_zero l)
  steps_le := Nat.zero_le _

end Search

/-! ## Results -/

section Results

variable [WordSource ρ] [TraceSink F σ] {o : Objective F} {strategy : Strategy F}
  {schedule : Schedule F} {source : ρ} {sink : Option σ} {r : RunResult F}

/-- **A search that is closed** reports what the walk makes. -/
theorem Search.Recounts.close_eq {s : Search F ρ σ}
    (h : Recounts o strategy schedule source sink 0 s) :
    (s.close o schedule (schedule.stagnationBound o.inst.numVars)).outcome =
        .ok (o.report strategy schedule source s.levels) ∧
      (s.close o schedule (schedule.stagnationBound o.inst.numVars)).source =
        o.remaining strategy schedule source (s.levels * schedule.iterationsPerTemperature) := by
  have hsteps : s.recorder.steps = s.levels * schedule.iterationsPerTemperature :=
    h.follows.steps_eq
  have hhistory : s.history = (o.snapshots strategy schedule source s.levels).toArray := by
    rw [← h.history_eq]
  constructor
  · simp only [close, Objective.report, ← hsteps, ← h.follows.best_eq_bestAt, ← hhistory,
      ← h.tally_eq, ← h.follows.temperature_eq]
  · rw [← hsteps]
    exact h.follows.source_eq

/-- **The result of a search** is the report of the walk after as many levels as it takes to
freeze. -/
theorem anneal_eq_report (h : (anneal o strategy schedule source sink).outcome = .ok r) :
    schedule.FreezesAt r.levels ∧ r.iterations ≤ maxCount ∧
      r = o.report strategy schedule source r.levels ∧
      (anneal o strategy schedule source sink).source =
        o.remaining strategy schedule source r.iterations := by
  obtain ⟨s, hs, hfrozen, hclose⟩ := anneal_of_invariant
    (Search.Recounts.invariant o strategy schedule source sink)
    (fun _ hrow => Search.Recounts.opening hrow) h
  obtain ⟨houtcome, hsource⟩ := hs.close_eq
  rw [hclose] at h ⊢
  obtain rfl := Except.ok.inj (houtcome.symm.trans h)
  refine ⟨⟨?_, hs.warm⟩, ?_, rfl, hsource⟩
  · show schedule.frozen (schedule.coolTimes s.levels schedule.initialTemperature) = true
    rw [← hs.follows.temperature_eq]
    exact hfrozen
  · show s.levels * schedule.iterationsPerTemperature ≤ maxCount
    rw [← Nat.add_zero (s.levels * _), ← hs.follows.steps_eq]
    exact hs.steps_le

end Results

end WeightedSat
