import WeightedSat.Proofs.Anneal.Report
import WeightedSat.Proofs.Anneal.Silence

/-!
# How a search ends

A search whose schedule is in order and whose instance has clauses makes every move that its
schedule asks for, as long as the counter of moves has room. In silence there are two ends: if the
schedule freezes within as many moves as can be counted, the search reports what the walk makes up
to there; otherwise the counter is full, and the one move too many is drawn before that is found.

## Main definitions

* `Search.Finishes`, `Search.Overflows`: the two ends of the loops

## Main results

* `Search.descend_silent`: the loops come to one of these ends
* `anneal_silent`: a search in silence
* `exists_result_of_frozen`: it reports a result if some level is frozen in time
* `anneal_fault`: with any sink, the only fault is that of the counter
-/

namespace WeightedSat

variable {F ρ σ : Type} [Scalar F] [WordSource ρ]

namespace Search

variable [TraceSink F σ] {o : Objective F} {strategy : Strategy F} {schedule : Schedule F}
  {source : ρ}

theorem Follows.sink_eq_none {j : Nat} {s : Search F ρ σ}
    (h : Follows o strategy schedule source none j s) : s.recorder.sink = none := by
  have hfed := h.fed
  rw [run_feed_none] at hfed
  exact (EStateM.Result.ok.inj hfed).2.symm

theorem Recounts.paced {sink : Option σ} {j : Nat} {s : Search F ρ σ}
    (h : Recounts o strategy schedule source sink j s) : Paced o schedule s.levels j s where
  sound := h.follows.sound
  le_levels := Nat.le_refl _
  steps_eq := h.follows.steps_eq
  steps_le := h.steps_le

/-- **No frozen temperature is near** if the next level does not fit into the counter. -/
theorem Recounts.lt_mul_of_frozen {sink : Option σ} {s : Search F ρ σ}
    (h : Recounts o strategy schedule source sink 0 s)
    (hwarm : schedule.frozen s.temperature = false)
    (hfull : maxCount < s.recorder.steps + schedule.iterationsPerTemperature) {l : Nat}
    (hl : schedule.frozen (schedule.coolTimes l schedule.initialTemperature) = true) :
    maxCount < l * schedule.iterationsPerTemperature := by
  have hlt : s.levels < l := by
    refine Nat.lt_of_not_le fun hle => ?_
    rcases Nat.lt_or_eq_of_le hle with hlt | rfl
    · rw [h.warm l hlt] at hl
      cases hl
    · rw [← h.follows.temperature_eq, hwarm] at hl
      cases hl
  have hmoves := Nat.mul_le_mul_right schedule.iterationsPerTemperature hlt
  have hsteps := h.follows.steps_eq
  rw [Nat.succ_mul] at hmoves
  omega

variable (o strategy schedule source)

/-- **Finishing**: the loops end where the schedule freezes. -/
def Finishes (x : EStateM.Result (Failure WriteError) (Search F ρ σ) Unit) : Prop :=
  ∃ t, x = .ok () t ∧ Recounts o strategy schedule source none 0 t ∧
    schedule.frozen t.temperature = true

/-- **Overflowing**: the counter of moves is full and the schedule not yet frozen. The move that
cannot be counted has been drawn. -/
def Overflows (x : EStateM.Result (Failure WriteError) (Search F ρ σ) Unit) : Prop :=
  (∃ t, x = .error (.fault .addOverflow) t ∧
    t.source = o.remaining strategy schedule source (maxCount + 1)) ∧
  ∀ l, schedule.frozen (schedule.coolTimes l schedule.initialTemperature) = true →
    maxCount < l * schedule.iterationsPerTemperature

variable {o strategy schedule source} {j n : Nat} {s : Search F ρ σ}

/-- One move in silence: it is made if it can be counted. -/
theorem iterate_silent (h : Recounts o strategy schedule source none j s)
    (hj : j < schedule.iterationsPerTemperature) :
    (s.recorder.steps < maxCount → ∃ t, (iterate o strategy).run s = .ok () t ∧
      Recounts o strategy schedule source none (j + 1) t ∧
      t.recorder.steps = s.recorder.steps + 1) ∧
    (s.recorder.steps = maxCount → ∃ t,
      (iterate o strategy).run s = .error (.fault .addOverflow) t ∧
      t.source = o.remaining strategy schedule source (maxCount + 1)) := by
  have hsound := h.follows.sound
  have hnone := h.follows.sink_eq_none
  obtain ⟨t, w, ht, -⟩ := o.succeeds_attempt strategy s.temperature hsound.position s.source
  have hrun := run_iterate hsound ht
  rw [hnone] at hrun
  constructor
  · intro hroom
    rw [if_neg (Nat.not_le_of_lt hroom)] at hrun
    exact ⟨_, hrun, h.move hj hroom ht (by rw [hnone]; rfl), after_steps t w s⟩
  · intro hfull
    rw [if_pos (Nat.le_of_eq hfull.symm)] at hrun
    refine ⟨_, hrun, ?_⟩
    rw [← hfull]
    exact (h.follows.trial_eq hj ht).2

/-- **The moves of a level in silence** are all made, or the counter is full before the last. -/
theorem sweep_silent (h : Recounts o strategy schedule source none j s)
    (hn : j + n ≤ schedule.iterationsPerTemperature) :
    (s.recorder.steps + n ≤ maxCount → ∃ t, (sweep o strategy n).run s = .ok () t) ∧
    (maxCount < s.recorder.steps + n → ∃ t,
      (sweep o strategy n).run s = .error (.fault .addOverflow) t ∧
      t.source = o.remaining strategy schedule source (maxCount + 1)) := by
  -- Induction on the moves that remain, the state being recounted before each.
  induction n generalizing j s with
  | zero =>
    have hle := h.steps_le
    exact ⟨fun _ => ⟨s, rfl⟩, fun hlt => absurd hlt (by omega)⟩
  | succ n ih =>
    obtain ⟨hmove, hfault⟩ := iterate_silent h (by omega)
    rw [run_sweep_succ]
    rcases Nat.lt_or_eq_of_le h.steps_le with hroom | hfull
    · obtain ⟨t, ht, hcount, hsteps⟩ := hmove hroom
      obtain ⟨hrest, hrest'⟩ := ih hcount (by omega)
      rw [ht]
      exact ⟨fun hle => hrest (by omega), fun hlt => hrest' (by omega)⟩
    · obtain ⟨t, ht, hsource⟩ := hfault hfull
      rw [ht]
      exact ⟨fun hle => absurd hle (by omega), fun _ => ⟨t, rfl, hsource⟩⟩

/-- **The loops in silence** come to the first frozen temperature, or the counter is full. -/
theorem descend_silent (hpositive : schedule.iterationsPerTemperature ≠ 0) {bound : Nat}
    (h : Recounts o strategy schedule source none 0 s) (hbound : maxCount < s.levels + bound) :
    Finishes o strategy schedule source ((descend o strategy schedule bound).run s) ∨
      Overflows o strategy schedule source ((descend o strategy schedule bound).run s) := by
  induction bound generalizing s with
  | zero =>
    have hlevels := h.paced.levels_le_steps hpositive
    have hle := h.steps_le
    omega
  | succ bound ih =>
    rw [run_descend_succ]
    by_cases hfrozen : schedule.frozen s.temperature = true
    · rw [if_pos hfrozen]
      exact .inl ⟨s, rfl, h, hfrozen⟩
    · rw [if_neg hfrozen]
      have hwarm : schedule.frozen s.temperature = false := by simpa using hfrozen
      have hfirst : 0 + schedule.iterationsPerTemperature ≤ schedule.iterationsPerTemperature :=
        Nat.le_of_eq (Nat.zero_add _)
      obtain ⟨hmoves, hfault⟩ := sweep_silent h hfirst
      by_cases hroom : s.recorder.steps + schedule.iterationsPerTemperature ≤ maxCount
      · obtain ⟨t, ht⟩ := hmoves hroom
        obtain ⟨hcount, hfrozen'⟩ :=
          (Recounts.invariant o strategy schedule source none).sweep hfirst hwarm h ht
        have hlevels := ((Paced.invariant o strategy schedule s.levels).sweep hfirst hwarm h.paced
          ht).1.le_levels
        rw [Nat.zero_add] at hcount
        rw [ht]
        apply ih (hcount.level hfrozen')
        show maxCount < t.levels + 1 + bound
        omega
      · obtain ⟨t, ht, hsource⟩ := hfault (Nat.lt_of_not_le hroom)
        rw [ht]
        exact .inr ⟨⟨t, rfl, hsource⟩, fun l hl =>
          h.lt_mul_of_frozen hwarm (Nat.lt_of_not_le hroom) hl⟩

end Search

/-! ## The whole search -/

section Anneal

variable [TraceSink F σ] {o : Objective F} {strategy : Strategy F} {schedule : Schedule F}
  {source : ρ}

/-- **A search in silence**, if the schedule is in order and there are clauses, reports what the
walk makes until the schedule freezes, unless this takes more moves than can be counted. -/
theorem anneal_silent (σ : Type) [TraceSink F σ] (strategy : Strategy F) (source : ρ)
    (hc : schedule.check = .ok ()) (hn : o.inst.numClauses ≠ 0) :
    (∃ n, schedule.FreezesAt n ∧ n * schedule.iterationsPerTemperature ≤ maxCount ∧
      (anneal o strategy schedule source (none : Option σ)).outcome =
        .ok (o.report strategy schedule source n) ∧
      (anneal o strategy schedule source (none : Option σ)).source =
        o.remaining strategy schedule source (n * schedule.iterationsPerTemperature)) ∨
    (∀ n, schedule.frozen (schedule.coolTimes n schedule.initialTemperature) = true →
      maxCount < n * schedule.iterationsPerTemperature) ∧
    (anneal o strategy schedule source (none : Option σ)).outcome =
      .error (.fault .addOverflow) ∧
    (anneal o strategy schedule source (none : Option σ)).source =
      o.remaining strategy schedule source (maxCount + 1) := by
  have hpositive := schedule.iterationsPerTemperature_ne_zero hc
  have hopening : Search.Recounts o strategy schedule source (none : Option σ) 0
      ((Search.opening o schedule (o.visited strategy schedule source 0)
        (o.remaining strategy schedule source 0) (none : Option σ)).withSink none) :=
    Search.Recounts.opening rfl
  have hstart : anneal o strategy schedule source (none : Option σ) =
      Search.finish o schedule ((Search.descend o strategy schedule (maxCount + 1)).run
        ((Search.opening o schedule (o.visited strategy schedule source 0)
          (o.remaining strategy schedule source 0) (none : Option σ)).withSink none)) := by
    rw [anneal_eq_finish hc hn, Search.course, EStateM.run_bind]
    rfl
  have hbound : maxCount < 0 + (maxCount + 1) := by omega
  rcases Search.descend_silent hpositive hopening hbound with
    ⟨t, ht, hcount, hfrozen⟩ | ⟨⟨t, ht, hsource⟩, hlate⟩
  · obtain ⟨houtcome, hsource⟩ := hcount.close_eq
    have hsteps := hcount.follows.steps_eq
    have hle := hcount.steps_le
    rw [hcount.follows.temperature_eq] at hfrozen
    refine .inl ⟨t.levels, ⟨hfrozen, hcount.warm⟩, by omega, ?_⟩
    rw [hstart, ht]
    exact ⟨houtcome, hsource⟩
  · rw [hstart, ht]
    exact .inr ⟨hlate, rfl, hsource⟩

/-- A search in silence reports a result if some level is frozen before the counter is full. -/
theorem exists_result_of_frozen (σ : Type) [TraceSink F σ] (strategy : Strategy F) (source : ρ)
    (hc : schedule.check = .ok ()) (hn : o.inst.numClauses ≠ 0) {n : Nat}
    (hfrozen : schedule.frozen (schedule.coolTimes n schedule.initialTemperature) = true)
    (hroom : n * schedule.iterationsPerTemperature ≤ maxCount) :
    ∃ r, (anneal o strategy schedule source (none : Option σ)).outcome = .ok r := by
  rcases anneal_silent σ strategy source hc hn with ⟨m, -, -, houtcome, -⟩ | ⟨hlate, -, -⟩
  · exact ⟨_, houtcome⟩
  · exact absurd hroom (Nat.not_le_of_lt (hlate n hfrozen))

/-- **The only fault** of a search, whatever its sink, is that its counter of moves is full while
the schedule asks for more of them. -/
theorem anneal_fault {sink : Option σ} {f : Fault}
    (h : (anneal o strategy schedule source sink).outcome = .error (.fault f)) :
    f = .addOverflow ∧
      ∀ n, schedule.frozen (schedule.coolTimes n schedule.initialTemperature) = true →
        maxCount < n * schedule.iterationsPerTemperature := by
  obtain ⟨rows, hrows⟩ := exists_rows_anneal σ o strategy schedule source
  have hsilent : (anneal o strategy schedule source (none : Option σ)).outcome =
      .error (.fault f) := by
    cases hfeed : (feed rows).run sink with
    | ok _ sink' =>
      rw [(hrows σ sink).heard sink' hfeed] at h
      exact h
    | error w sink' =>
      rw [((hrows σ sink).refused w sink' hfeed).1] at h
      cases h
  cases hc : schedule.check with
  | error e =>
    rw [anneal_of_check_eq_error hc] at hsilent
    cases hsilent
  | ok _ =>
    by_cases hn : o.inst.numClauses = 0
    · rw [anneal_of_numClauses_eq_zero hc hn] at hsilent
      cases hsilent
    · rcases anneal_silent σ strategy source hc hn with
        ⟨n, -, -, houtcome, -⟩ | ⟨hlate, houtcome, -⟩
      · cases houtcome.symm.trans hsilent
      · cases houtcome.symm.trans hsilent
        exact ⟨rfl, hlate⟩

end Anneal

end WeightedSat
