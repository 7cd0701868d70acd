import WeightedSat.Anneal.Search
import WeightedSat.Proofs.Anneal.Walk
import WeightedSat.Proofs.Record.Feed

/-!
# The loops of the search

One move of a search is a trial, which never fails, the count of the move, which fails only when the
counter is full, and a row, which the sink may refuse. The loops repeat it, so an invariant of the
moves and of the ends of levels is one of the whole search. A search starts by handing over the row
of its initial state, and is then the loops alone.

## Main definitions

* `Search.withSink sink s`: the search with another sink
* `Search.Sound o s`: its position is sound and it knows the number of clauses
* `Search.after t source s`: the search after a trial, counted but not yet told to the sink
* `Search.Invariant`: a property that moves and ends of levels keep
* `Search.opening`, `Search.announce`, `Search.finish`: how a whole search starts and ends
* `Search.Paced`: all levels that have ended were full

## Main results

* `Search.run_iterate`, `Search.iterate_eq_ok`: one move
* `Search.Invariant.descend`: an invariant of moves and levels holds at the end
* `anneal_of_check_eq_error`, `anneal_of_numClauses_eq_zero`: a search that does not begin
* `anneal_eq_finish`, `anneal_started`, `anneal_eq_ok`: a whole search
* `anneal_eq_error`: a search that reports an error has not begun, unless its sink gave up
-/

namespace WeightedSat

variable {F ρ σ τ : Type}

namespace Search

/-- The search with another sink, all else being the same. -/
def withSink (sink : Option τ) (s : Search F ρ σ) : Search F ρ τ :=
  { s with recorder := { s.recorder with sink } }

/-- The row for the current position. -/
def row (s : Search F ρ σ) : TraceRow F := s.recorder.row s.position.toEvaluation

/-- A search that has handed over a row, or failed to. -/
def heard (s : Search F ρ σ) : EStateM.Result WriteError (Option τ) Unit →
    EStateM.Result (Failure WriteError) (Search F ρ τ) Unit
  | .ok _ sink => .ok () (s.withSink sink)
  | .error w sink => .error (.error w) (s.withSink sink)

theorem heard_eq_ok {s : Search F ρ σ} {t : Search F ρ τ}
    {x : EStateM.Result WriteError (Option τ) Unit} (h : s.heard x = .ok () t) :
    ∃ sink, x = .ok () sink ∧ t = s.withSink sink := by
  cases x with
  | error w sink => cases h
  | ok _ sink =>
    obtain ⟨-, rfl⟩ := EStateM.Result.ok.inj h
    exact ⟨sink, rfl, rfl⟩

/-- The search with what its recorder has become. -/
def recorded (s : Search F ρ σ) : EStateM.Result (Failure WriteError) (Recorder σ) Unit →
    EStateM.Result (Failure WriteError) (Search F ρ σ) Unit
  | .ok _ recorder => .ok () { s with recorder }
  | .error e recorder => .error e { s with recorder }

/-- The search with one more move counted. -/
def counted (s : Search F ρ σ) : Search F ρ σ :=
  { s with recorder := { s.recorder with steps := s.recorder.steps + 1 } }

/-- The search after a trial that has left a source: the move counts, and its row is not yet handed
over. -/
def after (t : Trial F) (source : ρ) (s : Search F ρ σ) : Search F ρ σ :=
  (settle t { s with source }).counted

/-- **Sound search**: the position is sound and the recorder knows the number of clauses. -/
structure Sound [Scalar F] (o : Objective F) (s : Search F ρ σ) : Prop where
  position : s.position.Sound o
  numClauses_eq : s.recorder.numClauses = o.inst.numClauses

section Frame

variable (t : Trial F) (source : ρ) (s : Search F ρ σ)

@[simp] theorem settle_steps : (settle t s).recorder.steps = s.recorder.steps := by
  unfold settle Recorder.offer
  split
  · split <;> rfl
  · rfl

@[simp] theorem settle_numClauses : (settle t s).recorder.numClauses = s.recorder.numClauses := by
  unfold settle Recorder.offer
  split
  · split <;> rfl
  · rfl

@[simp] theorem settle_sink : (settle t s).recorder.sink = s.recorder.sink := by
  unfold settle Recorder.offer
  split
  · split <;> rfl
  · rfl

@[simp] theorem withSink_temperature (sink : Option τ) :
    (s.withSink sink).temperature = s.temperature := rfl

theorem settle_withSink (sink : Option τ) :
    settle t (s.withSink sink) = (settle t s).withSink sink := by
  unfold settle Recorder.offer
  split
  · split <;> rename_i h <;> simp only [withSink] at h ⊢ <;> simp only [h] <;> rfl
  · rfl

theorem after_withSink (sink : Option τ) :
    after t source (s.withSink sink) = (s.after t source).withSink sink :=
  congrArg counted (settle_withSink t { s with source } sink)

@[simp] theorem after_steps :
    (s.after t source).recorder.steps = s.recorder.steps + 1 :=
  congrArg (· + 1) (settle_steps t { s with source })

end Frame

variable [Scalar F]

theorem Sound.withSink {o : Objective F} {s : Search F ρ σ} (h : s.Sound o) (sink : Option τ) :
    (s.withSink sink).Sound o :=
  ⟨h.position, h.numClauses_eq⟩

theorem Sound.after {o : Objective F} {s : Search F ρ σ} (h : s.Sound o) {t : Trial F}
    (ht : t.Legal o s.position) (source : ρ) : (s.after t source).Sound o where
  position := ht.next_sound h.position
  numClauses_eq := (settle_numClauses t { s with source }).trans h.numClauses_eq

theorem Sound.endLevel {o : Objective F} {s : Search F ρ σ} (h : s.Sound o)
    (schedule : Schedule F) : (endLevel schedule s).Sound o :=
  ⟨h.position, h.numClauses_eq⟩

section Moves

variable [TraceSink F σ] {o : Objective F} {s : Search F ρ σ}

theorem recorded_step (hs : s.Sound o) :
    s.recorded ((Recorder.step s.position.toEvaluation).run s.recorder) =
      if maxCount ≤ s.recorder.steps then .error (.fault .addOverflow) s
      else s.counted.heard ((hand s.counted.row).run s.recorder.sink) := by
  have hle : s.position.unsatisfied ≤ s.recorder.numClauses := by
    rw [hs.numClauses_eq]
    exact hs.position.unsatisfied_le
  rw [Recorder.run_step hle]
  split
  · rfl
  · change s.recorded (s.counted.recorder.heard ((hand s.counted.row).run s.recorder.sink)) = _
    cases (hand s.counted.row).run s.recorder.sink <;> rfl

variable [WordSource ρ] {strategy : Strategy F}

/-- **One move**, given its trial. -/
theorem run_iterate (hs : s.Sound o) {t : Trial F} {source : ρ}
    (ht : (o.attempt strategy s.temperature s.position).run s.source = .ok t source) :
    (iterate o strategy).run s =
      if maxCount ≤ s.recorder.steps then .error (.fault .addOverflow) (settle t { s with source })
      else (s.after t source).heard ((hand (s.after t source).row).run s.recorder.sink) := by
  have hlegal := (o.succeeds_attempt strategy s.temperature hs.position s.source).of_run ht
  have hsettled : (settle t { s with source }).Sound o :=
    ⟨hlegal.next_sound hs.position, (settle_numClauses t _).trans hs.numClauses_eq⟩
  have hreport := recorded_step hsettled
  rw [settle_steps, settle_sink] at hreport
  refine Eq.trans ?_ hreport
  generalize hu : settle t { s with source } = u
  simp only [iterate, EStateM.run] at ht ⊢
  rw [ht]
  dsimp only
  rw [hu]
  cases Recorder.step u.position.toEvaluation u.recorder <;> rfl

theorem iterate_eq_ok (hs : s.Sound o) {s' : Search F ρ σ}
    (h : (iterate o strategy).run s = .ok () s') :
    ∃ t source sink, (o.attempt strategy s.temperature s.position).run s.source = .ok t source ∧
      s.recorder.steps < maxCount ∧
      (hand (s.after t source).row).run s.recorder.sink = .ok () sink ∧
      s' = (s.after t source).withSink sink := by
  obtain ⟨t, source, ht, -⟩ := o.succeeds_attempt strategy s.temperature hs.position s.source
  rw [run_iterate hs ht] at h
  split at h
  · cases h
  · next hfull =>
    obtain ⟨sink, hrow, rfl⟩ := heard_eq_ok h
    exact ⟨t, source, sink, ht, Nat.lt_of_not_le hfull, hrow, rfl⟩

theorem Sound.of_iterate (hs : s.Sound o) {s' : Search F ρ σ}
    (h : (iterate o strategy).run s = .ok () s') : s'.Sound o := by
  obtain ⟨t, source, sink, ht, -, -, rfl⟩ := iterate_eq_ok hs h
  have hlegal := (o.succeeds_attempt strategy s.temperature hs.position s.source).of_run ht
  exact (hs.after hlegal source).withSink sink

end Moves

/-! ## Invariants of the loops -/

section Loops

variable [WordSource ρ] [TraceSink F σ] (o : Objective F) (strategy : Strategy F)
  (schedule : Schedule F)

/-- **Invariant**: a property of a search and of the number of moves tried at its temperature, kept
by the moves of a level and by its end. -/
structure Invariant (P : Nat → Search F ρ σ → Prop) : Prop where
  sound : ∀ {j s}, P j s → s.Sound o
  move : ∀ {j s t source sink}, j < schedule.iterationsPerTemperature →
    schedule.frozen s.temperature = false → s.recorder.steps < maxCount → P j s →
    (o.attempt strategy s.temperature s.position).run s.source = .ok t source →
    (hand (s.after t source).row).run s.recorder.sink = .ok () sink →
    P (j + 1) ((s.after t source).withSink sink)
  level : ∀ {s}, schedule.frozen s.temperature = false →
    P schedule.iterationsPerTemperature s → P 0 (endLevel schedule s)

theorem run_sweep_succ (n : Nat) (s : Search F ρ σ) :
    (sweep o strategy (n + 1)).run s =
      match (iterate o strategy).run s with
      | .ok _ s => (sweep o strategy n).run s
      | .error e s => .error e s := by
  rw [sweep, EStateM.run_bind]
  cases (iterate o strategy).run s <;> rfl

theorem run_descend_succ (bound : Nat) (s : Search F ρ σ) :
    (descend o strategy schedule (bound + 1)).run s =
      if schedule.frozen s.temperature then .ok () s
      else
        match (sweep o strategy schedule.iterationsPerTemperature).run s with
        | .ok _ s => (descend o strategy schedule bound).run (endLevel schedule s)
        | .error e s => .error e s := by
  rw [descend, EStateM.run_bind, EStateM.run_get]
  dsimp only
  split
  · rfl
  · rw [EStateM.run_bind]
    cases (sweep o strategy schedule.iterationsPerTemperature).run s <;> rfl

variable {o strategy schedule} {P : Nat → Search F ρ σ → Prop}

theorem Invariant.sweep (hP : Invariant o strategy schedule P) {n j : Nat} {s t : Search F ρ σ}
    (hj : j + n ≤ schedule.iterationsPerTemperature)
    (hfrozen : schedule.frozen s.temperature = false) (hs : P j s)
    (h : (sweep o strategy n).run s = .ok () t) :
    P (j + n) t ∧ schedule.frozen t.temperature = false := by
  -- Induction on the moves that remain, for all states: the temperature stays as it is.
  induction n generalizing j s with
  | zero =>
    obtain ⟨-, rfl⟩ := EStateM.Result.ok.inj h
    exact ⟨hs, hfrozen⟩
  | succ n ih =>
    rw [run_sweep_succ] at h
    cases hmove : (iterate o strategy).run s with
    | error e u =>
      rw [hmove] at h
      cases h
    | ok _ u =>
      rw [hmove] at h
      obtain ⟨trial, source, sink, htrial, hfull, hrow, rfl⟩ := iterate_eq_ok (hP.sound hs) hmove
      have hnext := hP.move (by omega) hfrozen hfull hs htrial hrow
      rw [show j + (n + 1) = j + 1 + n by omega]
      exact ih (s := (s.after trial source).withSink sink) (by omega) hfrozen hnext h

/-- **The loops keep an invariant**, and they end at a frozen temperature. -/
theorem Invariant.descend (hP : Invariant o strategy schedule P) {bound : Nat}
    {s t : Search F ρ σ} (hs : P 0 s) (h : (descend o strategy schedule bound).run s = .ok () t) :
    P 0 t ∧ schedule.frozen t.temperature = true := by
  -- Induction on the levels that remain: a level is a sweep from an invariant state and its end.
  induction bound generalizing s with
  | zero => cases h
  | succ bound ih =>
    rw [run_descend_succ] at h
    split at h
    · next hfrozen =>
      obtain ⟨-, rfl⟩ := EStateM.Result.ok.inj h
      exact ⟨hs, hfrozen⟩
    · next hfrozen =>
      have hfrozen : schedule.frozen s.temperature = false := by simpa using hfrozen
      cases hsweep : (Search.sweep o strategy schedule.iterationsPerTemperature).run s with
      | error e u =>
        rw [hsweep] at h
        cases h
      | ok _ u =>
        rw [hsweep] at h
        obtain ⟨hu, hfrozen'⟩ := hP.sweep (by omega) hfrozen hs hsweep
        exact ih (hP.level hfrozen' (by simpa using hu)) h

theorem Sound.invariant (o : Objective F) (strategy : Strategy F) (schedule : Schedule F) :
    Invariant o strategy schedule fun _ (s : Search F ρ σ) => s.Sound o where
  sound h := h
  move := by
    intro j s t source sink _ _ _ hs ht _
    have hlegal := (o.succeeds_attempt strategy s.temperature hs.position s.source).of_run ht
    exact (hs.after hlegal source).withSink sink
  level _ hs := hs.endLevel schedule

end Loops

/-! ## The whole search -/

/-- The search at its start, before it has handed over a row. -/
def opening (o : Objective F) (schedule : Schedule F) (position : Position F) (source : ρ)
    (sink : Option σ) : Search F ρ σ :=
  let recorder : Recorder σ :=
    { best := { position with }, numClauses := o.inst.numClauses, sink }
  { source, recorder, position
    temperature := schedule.initialTemperature
    history := #[recorder.snapshot]
    log := #[.annealing o.inst.name schedule (schedule.stagnationBound o.inst.numVars)] }

/-- Hands over the row of the current position. -/
def announce [TraceSink F σ] : EStateM (Failure WriteError) (Search F ρ σ) Unit := fun s =>
  s.heard ((hand s.row).run s.recorder.sink)

omit [Scalar F] in
theorem run_announce [TraceSink F σ] (s : Search F ρ σ) :
    announce.run s = s.heard ((hand s.row).run s.recorder.sink) := rfl

/-- **The course of a search**: the row of its start, and then its levels. -/
def course [WordSource ρ] [TraceSink F σ] (o : Objective F) (strategy : Strategy F)
    (schedule : Schedule F) : EStateM (Failure WriteError) (Search F ρ σ) Unit := do
  announce
  descend o strategy schedule (maxCount + 1)

section Bound

variable [WordSource ρ] [TraceSink F σ] {o : Objective F} {strategy : Strategy F}
  {schedule : Schedule F}

/-- **Paced search**: at least `n` levels have ended, each with all its moves, `j` moves have been
made since, and the counter has had room for all of them. -/
structure Paced (o : Objective F) (schedule : Schedule F) (n j : Nat) (s : Search F ρ σ) :
    Prop where
  sound : s.Sound o
  le_levels : n ≤ s.levels
  steps_eq : s.recorder.steps = s.levels * schedule.iterationsPerTemperature + j
  steps_le : s.recorder.steps ≤ maxCount

omit [WordSource ρ] [TraceSink F σ] in
/-- Every level that has ended has counted a move. -/
theorem Paced.levels_le_steps {n j : Nat} {s : Search F ρ σ} (h : Paced o schedule n j s)
    (hpositive : schedule.iterationsPerTemperature ≠ 0) : s.levels ≤ s.recorder.steps :=
  calc s.levels
    _ ≤ s.levels * schedule.iterationsPerTemperature :=
      Nat.le_mul_of_pos_right _ (Nat.pos_of_ne_zero hpositive)
    _ ≤ s.recorder.steps := by
      rw [h.steps_eq]
      exact Nat.le_add_right _ _

omit [WordSource ρ] [TraceSink F σ] in
theorem Paced.endLevel {n : Nat} {s : Search F ρ σ}
    (h : Paced o schedule n schedule.iterationsPerTemperature s) :
    Paced o schedule (n + 1) 0 (endLevel schedule s) where
  sound := h.sound.endLevel schedule
  le_levels := Nat.succ_le_succ h.le_levels
  steps_eq := by
    show s.recorder.steps = (s.levels + 1) * schedule.iterationsPerTemperature + 0
    rw [h.steps_eq, Nat.succ_mul, Nat.add_zero]
  steps_le := h.steps_le

theorem Paced.invariant (o : Objective F) (strategy : Strategy F) (schedule : Schedule F)
    (n : Nat) : Invariant o strategy schedule (Paced (ρ := ρ) (σ := σ) o schedule n) where
  sound h := h.sound
  move := by
    intro j s t source sink hj hfrozen hfull h ht hrow
    have hsteps : ((s.after t source).withSink sink).recorder.steps = s.recorder.steps + 1 :=
      after_steps t source s
    have hlevels : ((s.after t source).withSink sink).levels = s.levels := rfl
    constructor
    · exact (Sound.invariant o strategy schedule).move hj hfrozen hfull h.sound ht hrow
    · exact h.le_levels
    · rw [hsteps, hlevels, h.steps_eq, Nat.add_assoc]
    · rw [hsteps]
      exact hfull
  level := by
    intro s _ h
    have hend := h.endLevel
    exact ⟨hend.sound, Nat.le_of_succ_le hend.le_levels, hend.steps_eq, hend.steps_le⟩

end Bound

/-- What a search reports when its course is over. -/
def finish (o : Objective F) (schedule : Schedule F) :
    EStateM.Result (Failure WriteError) (Search F ρ σ) Unit → Ended F ρ σ
  | .ok _ s => s.close o schedule (schedule.stagnationBound o.inst.numVars)
  | .error e s => s.abort e

end Search

section Anneal

open Search

variable [Scalar F] [WordSource ρ] [TraceSink F σ] {o : Objective F} {strategy : Strategy F}
  {schedule : Schedule F} {source : ρ} {sink : Option σ}

/-- **A search that is over before its start**, because its schedule is not in order. -/
theorem anneal_of_check_eq_error {e : ScheduleError F} (hc : schedule.check = .error e) :
    anneal o strategy schedule source sink =
      { outcome := .error (.error (.invalidSchedule e)), source, sink } := by
  rw [anneal, hc]

/-- **A search that is over before its start**, because there are no clauses. -/
theorem anneal_of_numClauses_eq_zero (hc : schedule.check = .ok ()) (hn : o.inst.numClauses = 0) :
    anneal o strategy schedule source sink =
      { outcome := .error (.error (.emptyInstance .clauses)), source, sink } := by
  simp only [anneal, hc, if_pos hn]

omit [WordSource ρ] in
/-- A recorder starts by handing over the row of its initial state. -/
theorem start_eq_heard {position : Position F} (hp : position.Sound o) (schedule : Schedule F)
    (w : ρ) (sink : Option σ) :
    Recorder.start position.assignment position.toEvaluation o.inst.numClauses sink =
      (opening o schedule position w sink).recorder.heard
        ((hand (opening o schedule position w sink).row).run sink) :=
  Recorder.run_emit (r := (opening o schedule position w sink).recorder) hp.unsatisfied_le

/-- **A whole search**, if the schedule is in order and there are clauses, is its course from the
position that the walk starts from. -/
theorem anneal_eq_finish (hc : schedule.check = .ok ()) (hn : o.inst.numClauses ≠ 0) :
    anneal o strategy schedule source sink =
      finish o schedule ((course o strategy schedule).run
        (opening o schedule (o.visited strategy schedule source 0)
          (o.remaining strategy schedule source 0) sink)) := by
  have hinitial : o.initial.run source = .ok _ _ := o.run_walk strategy schedule source 0
  have hp := o.visited_sound strategy schedule source 0
  generalize o.visited strategy schedule source 0 = p at *
  generalize o.remaining strategy schedule source 0 = w at *
  have hstart := start_eq_heard hp schedule w sink
  simp only [anneal, hc, if_neg hn, hinitial]
  have hsink : (opening o schedule p w sink).recorder.sink = sink := rfl
  rw [hstart, course, EStateM.run_bind, run_announce, hsink]
  cases (hand (opening o schedule p w sink).row).run sink with
  | error e sink => rfl
  | ok _ told =>
    dsimp only [heard, Recorder.heard, withSink, opening, Recorder.snapshot]
    generalize (descend o strategy schedule (maxCount + 1)).run (_ : Search F ρ σ) = result
    cases result <;> rfl

/-- **A search that reports a result** had a schedule in order and clauses. -/
theorem anneal_started {r : RunResult F}
    (h : (anneal o strategy schedule source sink).outcome = .ok r) :
    schedule.check = .ok () ∧ o.inst.numClauses ≠ 0 := by
  cases hc : schedule.check with
  | error e =>
    rw [anneal_of_check_eq_error hc] at h
    cases h
  | ok _ =>
    refine ⟨rfl, fun hn => ?_⟩
    rw [anneal_of_numClauses_eq_zero hc hn] at h
    cases h

/-- **A search that reports a result** has gone through its whole course. -/
theorem anneal_eq_ok {r : RunResult F}
    (h : (anneal o strategy schedule source sink).outcome = .ok r) :
    ∃ s, (course o strategy schedule).run
        (opening o schedule (o.visited strategy schedule source 0)
          (o.remaining strategy schedule source 0) sink) = .ok () s ∧
      anneal o strategy schedule source sink =
        s.close o schedule (schedule.stagnationBound o.inst.numVars) := by
  obtain ⟨hc, hn⟩ := anneal_started h
  rw [anneal_eq_finish hc hn] at h ⊢
  cases hcourse : (course o strategy schedule).run
    (opening o schedule (o.visited strategy schedule source 0)
      (o.remaining strategy schedule source 0) sink) with
  | error e s =>
    rw [hcourse] at h
    cases h
  | ok _ s => exact ⟨s, rfl, rfl⟩

/-- **A search that reports an error** other than that of its sink has not begun: nothing was drawn,
and no row was handed over. -/
theorem anneal_eq_error {e : SolveError F}
    (h : (anneal o strategy schedule source sink).outcome = .error (.error e)) :
    (∃ w, e = .trace w) ∨ anneal o strategy schedule source sink =
      { outcome := .error (.error e), source, sink } := by
  cases hc : schedule.check with
  | error c =>
    right
    rw [anneal_of_check_eq_error hc] at h ⊢
    cases h
    rfl
  | ok _ =>
    by_cases hn : o.inst.numClauses = 0
    · right
      rw [anneal_of_numClauses_eq_zero hc hn] at h ⊢
      cases h
      rfl
    · left
      rw [anneal_eq_finish hc hn] at h
      cases hcourse : (course o strategy schedule).run
        (opening o schedule (o.visited strategy schedule source 0)
          (o.remaining strategy schedule source 0) sink) with
      | ok _ s =>
        rw [hcourse] at h
        cases h
      | error f s =>
        rw [hcourse] at h
        rcases f with f | w
        · cases h
        · exact ⟨w, (Failure.error.inj (Except.error.inj h)).symm⟩

end Anneal

end WeightedSat
