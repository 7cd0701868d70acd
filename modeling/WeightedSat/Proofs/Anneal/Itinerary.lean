import WeightedSat.Proofs.Anneal.Course

/-!
# The itinerary of a search

A search passes through states: one at its start, and one after each move, at which the next move
is made. Between two moves of the nested loops there may be the end of a level, so the state after
a move that fills its level is the one after that end. Taken one after the other, these states make
the nested loops flat, and their positions are those of the walk.

## Main definitions

* `Search.turn`: from the end of a move to the state at which the next one is made
* `Search.Itinerary`: the states that a search passes through
* `Search.OnWalk`: a state that follows the walk and is ready for its next move

## Main results

* `anneal_itinerary`: a search that reports a result has passed through states on the walk, and it
  closes the last of them
-/

namespace WeightedSat

variable {F ρ σ : Type} [Scalar F]

namespace Search

/-- From the end of a move to the state at which the next one is made: a level that is full
ends. -/
def turn (schedule : Schedule F) (s : Search F ρ σ) : Search F ρ σ :=
  if s.recorder.steps % schedule.iterationsPerTemperature = 0 then endLevel schedule s else s

variable [WordSource ρ] [TraceSink F σ] (o : Objective F) (strategy : Strategy F)
  (schedule : Schedule F) (source : ρ) (sink : Option σ)

/-- **Itinerary**: the states `s 0, …, s n` of a search. It starts at the initial position, with the
recorder that has handed over its row; each state but the last is at a temperature that is not
frozen, and one move leads from it to the next. -/
structure Itinerary (n : Nat) (s : Nat → Search F ρ σ) : Prop where
  initial : o.initial.run source = .ok (s 0).position (s 0).source
  start : Recorder.start (s 0).position.assignment (s 0).position.toEvaluation
    o.inst.numClauses sink = .ok () (s 0).recorder
  temperature_eq : (s 0).temperature = schedule.initialTemperature
  not_frozen : ∀ i < n, schedule.frozen (s i).temperature = false
  move : ∀ i < n, ∃ t, (iterate o strategy).run (s i) = .ok () t ∧ s (i + 1) = t.turn schedule

variable {o strategy schedule source sink}

theorem Itinerary.extend {n : Nat} {s : Nat → Search F ρ σ} {t : Search F ρ σ}
    (h : Itinerary o strategy schedule source sink n s)
    (hfrozen : schedule.frozen (s n).temperature = false)
    (ht : (iterate o strategy).run (s n) = .ok () t) :
    Itinerary o strategy schedule source sink (n + 1)
      fun i => if i ≤ n then s i else t.turn schedule where
  initial := h.initial
  start := h.start
  temperature_eq := h.temperature_eq
  not_frozen := by
    intro i hi
    rw [if_pos (Nat.le_of_lt_succ hi)]
    rcases Nat.lt_succ_iff_lt_or_eq.mp hi with hi | rfl
    · exact h.not_frozen i hi
    · exact hfrozen
  move := by
    intro i hi
    rw [if_pos (Nat.le_of_lt_succ hi)]
    rcases Nat.lt_succ_iff_lt_or_eq.mp hi with hi | rfl
    · rw [if_pos (Nat.succ_le_of_lt hi)]
      exact h.move i hi
    · rw [if_neg (by omega)]
      exact ⟨t, ht, rfl⟩

variable (o strategy schedule source sink)

/-- **On the walk** after `i` moves, and ready for the next one. -/
structure OnWalk (i : Nat) (s : Search F ρ σ) : Prop where
  steps_eq : s.recorder.steps = i
  follows : ∃ j < schedule.iterationsPerTemperature,
    Follows o strategy schedule source sink j s

/-- **Having travelled**: the search follows the walk, and it has passed through states that are on
it. With all moves of its level made, the last of the states is already the next level's. -/
structure Travelled (j : Nat) (t : Search F ρ σ) : Prop where
  follows : Follows o strategy schedule source sink j t
  route : ∃ s, Itinerary o strategy schedule source sink t.recorder.steps s ∧
    (∀ i ≤ t.recorder.steps, OnWalk o strategy schedule source sink i (s i)) ∧
    s t.recorder.steps = if j = schedule.iterationsPerTemperature then endLevel schedule t else t

variable {o strategy schedule source sink}

section OnWalk

variable {i : Nat} {s : Search F ρ σ} (h : OnWalk o strategy schedule source sink i s)
include h

theorem OnWalk.position_eq : s.position = o.visited strategy schedule source i := by
  obtain ⟨j, -, hj⟩ := h.follows
  rw [hj.position_eq, h.steps_eq]

theorem OnWalk.source_eq : s.source = o.remaining strategy schedule source i := by
  obtain ⟨j, -, hj⟩ := h.follows
  rw [hj.source_eq, h.steps_eq]

theorem OnWalk.sound : s.position.Sound o := by
  rw [h.position_eq]
  exact o.visited_sound strategy schedule source i

theorem OnWalk.run_attempt : (o.attempt strategy s.temperature s.position).run s.source =
    .ok (o.tried strategy schedule source i) (o.remaining strategy schedule source (i + 1)) := by
  obtain ⟨j, hj, hfollows⟩ := h.follows
  rw [hfollows.temperatureAt_steps hj, h.steps_eq, h.position_eq, h.source_eq]
  exact o.run_attempt strategy schedule source i

end OnWalk

/-- At the end of a move its level ends if the move fills it. -/
theorem Follows.turn_eq {j : Nat} {s : Search F ρ σ}
    (h : Follows o strategy schedule source sink j s) (hj₀ : j ≠ 0)
    (hj : j ≤ schedule.iterationsPerTemperature) :
    s.turn schedule =
      if j = schedule.iterationsPerTemperature then endLevel schedule s else s := by
  have hsteps : s.recorder.steps % schedule.iterationsPerTemperature =
      j % schedule.iterationsPerTemperature := by
    rw [h.steps_eq, Nat.mul_comm, Nat.mul_add_mod]
  unfold turn
  rw [hsteps]
  by_cases hfull : j = schedule.iterationsPerTemperature
  · rw [if_pos hfull, if_pos (by rw [hfull, Nat.mod_self])]
  · have hlt : j < schedule.iterationsPerTemperature := by omega
    rw [if_neg hfull, Nat.mod_eq_of_lt hlt, if_neg hj₀]

theorem Follows.turn_onWalk {j : Nat} {s : Search F ρ σ}
    (h : Follows o strategy schedule source sink j s) (hj₀ : j ≠ 0)
    (hj : j ≤ schedule.iterationsPerTemperature) :
    OnWalk o strategy schedule source sink s.recorder.steps (s.turn schedule) := by
  rw [h.turn_eq hj₀ hj]
  by_cases hfull : j = schedule.iterationsPerTemperature
  · rw [if_pos hfull]
    subst hfull
    exact ⟨rfl, 0, Nat.pos_of_ne_zero hj₀, h.level⟩
  · rw [if_neg hfull]
    exact ⟨rfl, j, by omega, h⟩

/-- **A move** adds its state to the route. -/
theorem Travelled.move {j : Nat} {s : Search F ρ σ} {t : Trial F} {w : ρ} {told : Option σ}
    (h : Travelled o strategy schedule source sink j s)
    (hj : j < schedule.iterationsPerTemperature)
    (hfrozen : schedule.frozen s.temperature = false) (hfull : s.recorder.steps < maxCount)
    (ht : (o.attempt strategy s.temperature s.position).run s.source = .ok t w)
    (hrow : (hand (s.after t w).row).run s.recorder.sink = .ok () told) :
    Travelled o strategy schedule source sink (j + 1) ((s.after t w).withSink told) := by
  have hnext := h.follows.move hj ht hrow
  have hsteps : ((s.after t w).withSink told).recorder.steps = s.recorder.steps + 1 :=
    after_steps t w s
  obtain ⟨stations, hstations, hwalk, hlast⟩ := h.route
  rw [if_neg (Nat.ne_of_lt hj)] at hlast
  have hrun : (iterate o strategy).run (stations s.recorder.steps) =
      .ok () ((s.after t w).withSink told) := by
    rw [hlast, run_iterate h.follows.sound ht, if_neg (Nat.not_le_of_lt hfull), hrow]
    rfl
  refine ⟨hnext, fun i => if i ≤ s.recorder.steps then stations i else
    ((s.after t w).withSink told).turn schedule, ?_, ?_, ?_⟩
  · rw [hsteps]
    rw [← hlast] at hfrozen
    exact hstations.extend hfrozen hrun
  · intro i hi
    dsimp only
    split
    · next hle => exact hwalk i hle
    · next hgt =>
      obtain rfl : i = s.recorder.steps + 1 := by omega
      rw [← hsteps]
      exact hnext.turn_onWalk (Nat.succ_ne_zero j) hj
  · dsimp only
    rw [hsteps, if_neg (Nat.not_succ_le_self _)]
    exact hnext.turn_eq (Nat.succ_ne_zero j) hj

/-- **The end of a level** is already on the route. -/
theorem Travelled.level {s : Search F ρ σ} (hpositive : schedule.iterationsPerTemperature ≠ 0)
    (h : Travelled o strategy schedule source sink schedule.iterationsPerTemperature s) :
    Travelled o strategy schedule source sink 0 (endLevel schedule s) := by
  obtain ⟨stations, hstations, hwalk, hlast⟩ := h.route
  rw [if_pos rfl] at hlast
  refine ⟨h.follows.level, stations, hstations, hwalk, ?_⟩
  rw [if_neg (Ne.symm hpositive)]
  exact hlast

theorem Travelled.invariant (o : Objective F) (strategy : Strategy F) {schedule : Schedule F}
    (source : ρ) (sink : Option σ) (hpositive : schedule.iterationsPerTemperature ≠ 0) :
    Invariant o strategy schedule (Travelled o strategy schedule source sink) where
  sound h := h.follows.sound
  move hj hfrozen hfull h ht hrow := h.move hj hfrozen hfull ht hrow
  level _ h := h.level hpositive

theorem Travelled.opening {told : Option σ} (hpositive : schedule.iterationsPerTemperature ≠ 0)
    (h : (hand (o.rowAt strategy schedule source 0)).run sink = .ok () told) :
    Travelled o strategy schedule source sink 0
      ((Search.opening o schedule (o.visited strategy schedule source 0)
        (o.remaining strategy schedule source 0) sink).withSink told) := by
  refine ⟨Follows.opening h, fun _ => (Search.opening o schedule
    (o.visited strategy schedule source 0) (o.remaining strategy schedule source 0)
    sink).withSink told, ?_, ?_, ?_⟩
  · constructor
    · exact o.run_walk strategy schedule source 0
    · exact (start_opening o strategy schedule source sink).trans (congrArg _ h)
    · rfl
    · intro i hi
      exact absurd hi (Nat.not_lt_zero i)
    · intro i hi
      exact absurd hi (Nat.not_lt_zero i)
  · intro i hi
    obtain rfl : i = 0 := Nat.le_zero.mp hi
    exact ⟨rfl, 0, Nat.pos_of_ne_zero hpositive, Follows.opening h⟩
  · rw [if_neg (Ne.symm hpositive)]

end Search

section Anneal

variable [WordSource ρ] [TraceSink F σ] {o : Objective F} {strategy : Strategy F}
  {schedule : Schedule F} {source : ρ} {sink : Option σ} {r : RunResult F}

/-- **A search that reports a result** has travelled to a temperature that is frozen. -/
theorem anneal_travelled (h : (anneal o strategy schedule source sink).outcome = .ok r) :
    ∃ s, Search.Travelled o strategy schedule source sink 0 s ∧
      schedule.iterationsPerTemperature ≠ 0 ∧ schedule.frozen s.temperature = true ∧
      anneal o strategy schedule source sink =
        s.close o schedule (schedule.stagnationBound o.inst.numVars) := by
  have hpositive := schedule.iterationsPerTemperature_ne_zero (anneal_started h).1
  obtain ⟨s, hs, hfrozen, hclose⟩ := anneal_of_invariant
    (Search.Travelled.invariant o strategy source sink hpositive)
    (fun _ hrow => Search.Travelled.opening hpositive hrow) h
  exact ⟨s, hs, hpositive, hfrozen, hclose⟩

/-- **The itinerary of a search** that reports a result has a state for each of its moves, which is
on the walk, and the search closes the last state, which is the first that is frozen. -/
theorem anneal_itinerary (h : (anneal o strategy schedule source sink).outcome = .ok r) :
    ∃ s, Search.Itinerary o strategy schedule source sink r.iterations s ∧
      (∀ i ≤ r.iterations, Search.OnWalk o strategy schedule source sink i (s i)) ∧
      schedule.frozen (s r.iterations).temperature = true ∧
      anneal o strategy schedule source sink =
        (s r.iterations).close o schedule (schedule.stagnationBound o.inst.numVars) := by
  obtain ⟨t, ht, hpositive, hfrozen, hclose⟩ := anneal_travelled h
  obtain ⟨s, hs, hwalk, hlast⟩ := ht.route
  rw [if_neg (Ne.symm hpositive)] at hlast
  have hr : r.iterations = t.recorder.steps := by
    rw [hclose] at h
    obtain rfl := Except.ok.inj h
    rfl
  rw [hr]
  refine ⟨s, hs, hwalk, ?_, ?_⟩
  · rw [hlast]
    exact hfrozen
  · rw [hlast]
    exact hclose

end Anneal

end WeightedSat
