import WeightedSat.Proofs.Anneal.Loop
import WeightedSat.Proofs.Standing

/-!
# A search follows the walk

The invariant of the annealing loops: after every move the search stands where the walk stands
after as many moves, with the source that the walk has left; it holds the first of the positions
passed that none of them beats, and its sink has been fed the rows of these positions, one after
the other.

## Main definitions

* `Objective.rowAt`, `Objective.rows`: the rows of the walk
* `Search.Follows`: the invariant

## Main results

* `Search.Follows.invariant`: moves and ends of levels keep it
* `Search.Follows.opening`: a search starts with it
* `anneal_of_invariant`: what the loops keep holds of the search that is closed
-/

namespace WeightedSat

variable {F ρ σ : Type} [Scalar F]

/-- The standing of an assignment. -/
def Instance.standing (inst : Instance) (a : Assignment) : Standing :=
  ⟨inst.numUnsatisfied a, inst.weightOf a⟩

/-- The position as the best one. -/
def Position.toBest (p : Position F) : Best := { p with }

theorem Position.Sound.toStanding_eq {o : Objective F} {p : Position F} (h : p.Sound o) :
    p.toStanding = o.inst.standing p.assignment := by
  rw [h.toEvaluation_eq]
  rfl

section Rows

variable [WordSource ρ] (o : Objective F) (strategy : Strategy F) (s : Schedule F) (source : ρ)

/-- The row for the position after `i` moves. -/
def Objective.rowAt (i : Nat) : TraceRow F :=
  let p := o.visited strategy s source i
  { p with step := i, satisfied := o.inst.numClauses - p.unsatisfied }

/-- The first `n` rows of the walk. -/
def Objective.rows (n : Nat) : List (TraceRow F) :=
  (List.range n).map (o.rowAt strategy s source)

theorem Objective.rows_succ (n : Nat) : o.rows strategy s source (n + 1) =
    o.rows strategy s source n ++ [o.rowAt strategy s source n] := by
  simp [rows, List.range_succ]

theorem Objective.length_rows (n : Nat) : (o.rows strategy s source n).length = n := by
  simp [rows]

theorem Objective.getElem?_rows {i n : Nat} (hi : i < n) :
    (o.rows strategy s source n)[i]? = some (o.rowAt strategy s source i) := by
  simp [rows, hi]

end Rows

namespace Search

variable [WordSource ρ] [TraceSink F σ] (o : Objective F) (strategy : Strategy F)
  (schedule : Schedule F) (source : ρ) (sink : Option σ)

/-- **Following the walk**, with `j` moves made at the current temperature. -/
structure Follows (j : Nat) (s : Search F ρ σ) : Prop where
  steps_eq : s.recorder.steps = s.levels * schedule.iterationsPerTemperature + j
  temperature_eq : s.temperature = schedule.coolTimes s.levels schedule.initialTemperature
  position_eq : s.position = o.visited strategy schedule source s.recorder.steps
  source_eq : s.source = o.remaining strategy schedule source s.recorder.steps
  numClauses_eq : s.recorder.numClauses = o.inst.numClauses
  best_eq : ∃ k, FirstUnbeaten (fun i => (o.visited strategy schedule source i).toStanding)
      s.recorder.steps k ∧
    s.recorder.best = (o.visited strategy schedule source k).toBest
  fed : (feed (o.rows strategy schedule source (s.recorder.steps + 1))).run sink =
    .ok () s.recorder.sink

variable {o strategy schedule source sink}

theorem Follows.sound {j : Nat} {s : Search F ρ σ}
    (h : Follows o strategy schedule source sink j s) : s.Sound o where
  position := by
    rw [h.position_eq]
    exact o.visited_sound strategy schedule source _
  numClauses_eq := h.numClauses_eq

theorem Follows.temperatureAt_steps {j : Nat} {s : Search F ρ σ}
    (h : Follows o strategy schedule source sink j s)
    (hj : j < schedule.iterationsPerTemperature) :
    s.temperature = schedule.temperatureAt s.recorder.steps := by
  rw [h.temperature_eq, Schedule.temperatureAt, h.steps_eq, Nat.mul_comm,
    Nat.mul_add_div (by omega), Nat.div_eq_of_lt hj, Nat.add_zero]

omit [Scalar F] [WordSource ρ] [TraceSink F σ] in
/-- The best state after a trial: a position that the walk stays at changes nothing. -/
theorem settle_best (t : Trial F) (s : Search F ρ σ)
    (hs : ¬ s.position.toStanding.beats s.recorder.best.toStanding) :
    (settle t s).recorder.best =
      if (t.next s.position).toStanding.beats s.recorder.best.toStanding then
        (t.next s.position).toBest
      else s.recorder.best := by
  unfold settle Recorder.offer Trial.next
  -- Only an accepted candidate is offered; a position stayed at would have changed nothing.
  by_cases ht : t.accepted
  · simp only [ht, if_true]
    split <;> rfl
  · simp only [ht, hs, if_false, Bool.false_eq_true]

omit [Scalar F] [WordSource ρ] [TraceSink F σ] in
/-- The best state after a trial is the first unbeaten one of the positions passed. -/
theorem settle_best_firstUnbeaten {p : Nat → Position F} {s : Search F ρ σ} {t : Trial F}
    {n k : Nat} (hk : FirstUnbeaten (fun i => (p i).toStanding) n k)
    (hbest : s.recorder.best = (p k).toBest) (hposition : s.position = p n)
    (hnext : t.next s.position = p (n + 1)) :
    ∃ k, FirstUnbeaten (fun i => (p i).toStanding) (n + 1) k ∧
      (settle t s).recorder.best = (p k).toBest := by
  have hstay : ¬ s.position.toStanding.beats s.recorder.best.toStanding := by
    rw [hposition, hbest]
    exact hk.not_beats n (Nat.le_refl n)
  rw [settle_best t s hstay, hnext, hbest]
  by_cases hb : (p (n + 1)).toStanding.beats (p k).toBest.toStanding
  · rw [if_pos hb]
    exact ⟨n + 1, hk.succ_of_beats hb, rfl⟩
  · rw [if_neg hb]
    exact ⟨k, hk.succ_of_not_beats hb, rfl⟩

omit [TraceSink F σ] in
theorem row_eq_rowAt {s : Search F ρ σ} (hnum : s.recorder.numClauses = o.inst.numClauses)
    (hposition : s.position = o.visited strategy schedule source s.recorder.steps) :
    s.row = o.rowAt strategy schedule source s.recorder.steps := by
  rw [row, Recorder.row, hnum, hposition]
  rfl

/-- **A move follows the walk.** -/
theorem Follows.move {j : Nat} {s : Search F ρ σ} {t : Trial F} {w : ρ} {told : Option σ}
    (h : Follows o strategy schedule source sink j s)
    (hj : j < schedule.iterationsPerTemperature)
    (ht : (o.attempt strategy s.temperature s.position).run s.source = .ok t w)
    (hrow : (hand (s.after t w).row).run s.recorder.sink = .ok () told) :
    Follows o strategy schedule source sink (j + 1) ((s.after t w).withSink told) := by
  rw [h.temperatureAt_steps hj, h.position_eq, h.source_eq, o.run_attempt] at ht
  obtain ⟨ht, hw⟩ := EStateM.Result.ok.inj ht
  have hnext : t.next s.position = o.visited strategy schedule source (s.recorder.steps + 1) := by
    rw [o.visited_succ, ← ht, ← h.position_eq]
  have hsteps : (s.after t w).recorder.steps = s.recorder.steps + 1 := after_steps t w s
  have hposition : (s.after t w).position =
      o.visited strategy schedule source (s.after t w).recorder.steps := by
    rw [hsteps]
    exact hnext
  have hnum : (s.after t w).recorder.numClauses = o.inst.numClauses :=
    (settle_numClauses t { s with source := w }).trans h.numClauses_eq
  obtain ⟨k, hk, hbest⟩ := h.best_eq
  constructor
  · exact hsteps.trans (by rw [h.steps_eq]; rfl)
  · exact h.temperature_eq
  · exact hposition
  · exact hw.symm.trans (by rw [← hsteps]; rfl)
  · exact hnum
  · obtain ⟨k', hk', hbest'⟩ := settle_best_firstUnbeaten (s := { s with source := w }) hk hbest
      h.position_eq hnext
    exact ⟨k', hsteps ▸ hk', hbest'⟩
  · have hrow' : (hand (o.rowAt strategy schedule source (s.recorder.steps + 1))).run
        s.recorder.sink = .ok () told := by
      rw [← hsteps, ← row_eq_rowAt hnum hposition]
      exact hrow
    have hall : (feed (o.rows strategy schedule source (s.recorder.steps + 1 + 1))).run sink =
        .ok () told := by
      rw [o.rows_succ, run_feed_append, h.fed]
      dsimp only
      rw [run_feed_singleton, hrow']
    exact hsteps ▸ hall

/-- **The end of a level** makes no move. -/
theorem Follows.level {s : Search F ρ σ}
    (h : Follows o strategy schedule source sink schedule.iterationsPerTemperature s) :
    Follows o strategy schedule source sink 0 (endLevel schedule s) where
  steps_eq := by
    show s.recorder.steps = (s.levels + 1) * schedule.iterationsPerTemperature + 0
    rw [h.steps_eq, Nat.succ_mul, Nat.add_zero]
  temperature_eq := by
    show schedule.cool s.temperature = schedule.coolTimes (s.levels + 1) schedule.initialTemperature
    rw [h.temperature_eq, schedule.coolTimes_succ]
  position_eq := h.position_eq
  source_eq := h.source_eq
  numClauses_eq := h.numClauses_eq
  best_eq := h.best_eq
  fed := h.fed

theorem Follows.invariant (o : Objective F) (strategy : Strategy F) (schedule : Schedule F)
    (source : ρ) (sink : Option σ) :
    Invariant o strategy schedule (Follows o strategy schedule source sink) where
  sound h := h.sound
  move hj _ _ h ht hrow := h.move hj ht hrow
  level _ h := h.level

theorem Follows.opening {told : Option σ}
    (h : (hand (o.rowAt strategy schedule source 0)).run sink = .ok () told) :
    Follows o strategy schedule source sink 0
      ((Search.opening o schedule (o.visited strategy schedule source 0)
        (o.remaining strategy schedule source 0) sink).withSink told) where
  steps_eq := by simp [Search.opening, withSink]
  temperature_eq := rfl
  position_eq := rfl
  source_eq := rfl
  numClauses_eq := rfl
  best_eq := ⟨0, FirstUnbeaten.zero _, rfl⟩
  fed := by
    show (feed [o.rowAt strategy schedule source 0]).run sink = .ok () told
    rw [run_feed_singleton, h]

theorem run_announce_opening (o : Objective F) (strategy : Strategy F) (schedule : Schedule F)
    (source : ρ) (sink : Option σ) :
    announce.run (Search.opening o schedule (o.visited strategy schedule source 0)
        (o.remaining strategy schedule source 0) sink) =
      (Search.opening o schedule (o.visited strategy schedule source 0)
        (o.remaining strategy schedule source 0) sink).heard
        ((hand (o.rowAt strategy schedule source 0)).run sink) := rfl

/-- The recorder of a search starts by handing over the first row of the walk. -/
theorem start_opening (o : Objective F) (strategy : Strategy F) (schedule : Schedule F)
    (source : ρ) (sink : Option σ) :
    Recorder.start (o.visited strategy schedule source 0).assignment
        (o.visited strategy schedule source 0).toEvaluation o.inst.numClauses sink =
      (Search.opening o schedule (o.visited strategy schedule source 0)
        (o.remaining strategy schedule source 0) sink).recorder.heard
        ((hand (o.rowAt strategy schedule source 0)).run sink) :=
  start_eq_heard (o.visited_sound strategy schedule source 0) schedule
    (o.remaining strategy schedule source 0) sink

end Search

section Anneal

variable [WordSource ρ] [TraceSink F σ] {o : Objective F} {strategy : Strategy F}
  {schedule : Schedule F} {source : ρ} {sink : Option σ} {r : RunResult F}

/-- **An invariant of the loops** that holds once the first row is handed over holds of the search
that is closed, and that one is at a frozen temperature. -/
theorem anneal_of_invariant {P : Nat → Search F ρ σ → Prop}
    (hP : Search.Invariant o strategy schedule P)
    (hopening : ∀ told, (hand (o.rowAt strategy schedule source 0)).run sink = .ok () told →
      P 0 ((Search.opening o schedule (o.visited strategy schedule source 0)
        (o.remaining strategy schedule source 0) sink).withSink told))
    (h : (anneal o strategy schedule source sink).outcome = .ok r) :
    ∃ s, P 0 s ∧ schedule.frozen s.temperature = true ∧
      anneal o strategy schedule source sink =
        s.close o schedule (schedule.stagnationBound o.inst.numVars) := by
  obtain ⟨s, hcourse, hclose⟩ := anneal_eq_ok h
  obtain ⟨_, s₀, hannounce, hdescend⟩ := run_bind_eq_ok hcourse
  rw [Search.run_announce_opening] at hannounce
  obtain ⟨told, hrow, rfl⟩ := Search.heard_eq_ok hannounce
  obtain ⟨hs, hfrozen⟩ := hP.descend (hopening told hrow) hdescend
  exact ⟨s, hs, hfrozen, hclose⟩

end Anneal

end WeightedSat
