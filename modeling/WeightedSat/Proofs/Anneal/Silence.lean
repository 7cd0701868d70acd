import WeightedSat.Proofs.Anneal.Trace

/-!
# Searches with and without a sink

A search does not look at its sink: it hands over rows, and the only thing that can come of it is
that a row is refused. So there is a list of rows, the same for every sink, such that a search with
a sink that takes these rows goes like the search without one, and a search with a sink that refuses
one of them is over at that row.

## Why the rows come first

The rows must not depend on the sink, and the search must not be known to succeed: a search may
also end with a fault, at which it has handed over some rows and is still like the search without a
sink. So the simulation is stated for actions that work with every sink, and the rows are
quantified before the sink. That the rows are those of the walk is known only of a search that
reports a result.

## Main definitions

* `Search.Tells`: a silent result, the rows that were left out, and the result with a sink
* `Search.Transparent`: an action that does not look at the sink

## Main results

* `Search.Transparent.bind`: one action after another
* `Search.transparent_course`: the course of a search is transparent
* `exists_rows_anneal`, `anneal_tells`: a whole search with a sink, given the one without
* `anneal_of_tireless`, `anneal_of_takesOnly`: with a sink that never gives up, and with one that
  does
-/

namespace WeightedSat

variable {F ρ σ τ : Type}

namespace Search

/-- The result of an action with another sink. -/
def resultWithSink (sink : Option τ) :
    EStateM.Result (Failure WriteError) (Search F ρ σ) Unit →
      EStateM.Result (Failure WriteError) (Search F ρ τ) Unit
  | .ok _ s => .ok () (s.withSink sink)
  | .error e s => .error e (s.withSink sink)

/-- **Telling**: what became of an action with the sink `k`, given what becomes of it in silence and
the rows that are handed over meanwhile. -/
structure Tells [TraceSink F τ] (rows : List (TraceRow F))
    (silent : EStateM.Result (Failure WriteError) (Search F ρ σ) Unit) (k : Option τ)
    (loud : EStateM.Result (Failure WriteError) (Search F ρ τ) Unit) : Prop where
  heard : ∀ k', (feed rows).run k = .ok () k' → loud = resultWithSink k' silent
  refused : ∀ w k', (feed rows).run k = .error w k' →
    ∃ s, loud = .error (.error w) s ∧ s.recorder.sink = k'

/-- **Transparent action**: from `s` on it tells the same rows to every sink. -/
def Transparent [TraceSink F σ]
    (x : ∀ (τ : Type) [TraceSink F τ], EStateM (Failure WriteError) (Search F ρ τ) Unit)
    (s : Search F ρ σ) : Prop :=
  ∃ rows : List (TraceRow F), ∀ (τ : Type) [TraceSink F τ] (k : Option τ),
    Tells rows ((x σ).run (s.withSink none)) k ((x τ).run (s.withSink k))

section Transparent

variable [TraceSink F σ] {s t : Search F ρ σ}
  {x y : ∀ (τ : Type) [TraceSink F τ], EStateM (Failure WriteError) (Search F ρ τ) Unit}

theorem Transparent.congr (h : Transparent x s)
    (hxy : ∀ (τ : Type) [TraceSink F τ] (k : Option τ),
      (x τ).run (s.withSink k) = (y τ).run (s.withSink k)) : Transparent y s := by
  obtain ⟨rows, hrows⟩ := h
  refine ⟨rows, ?_⟩
  intro τ _ k
  rw [← hxy σ none, ← hxy τ k]
  exact hrows τ k

theorem Transparent.of_result {r : EStateM.Result (Failure WriteError) (Search F ρ σ) Unit}
    (h : ∀ (τ : Type) [TraceSink F τ] (k : Option τ),
      (x τ).run (s.withSink k) = resultWithSink k r) : Transparent x s := by
  refine ⟨[], ?_⟩
  intro τ _ k
  rw [h σ none, h τ k]
  constructor
  · intro k' hk'
    rw [run_feed_nil] at hk'
    obtain ⟨-, rfl⟩ := EStateM.Result.ok.inj hk'
    cases r <;> rfl
  · intro w k' hk'
    cases hk'

theorem Transparent.of_heard
    (h : ∀ (τ : Type) [TraceSink F τ] (k : Option τ),
      (x τ).run (s.withSink k) = (t.withSink k).heard ((hand t.row).run k)) : Transparent x s := by
  refine ⟨[t.row], ?_⟩
  intro τ _ k
  rw [h σ none, h τ k]
  constructor
  · intro k' hk'
    rw [run_feed_singleton] at hk'
    rw [hk']
    rfl
  · intro w k' hk'
    rw [run_feed_singleton] at hk'
    rw [hk']
    exact ⟨_, rfl, rfl⟩

/-- In silence the sink stays missing. -/
theorem Tells.silent_eq {rows : List (TraceRow F)}
    {silent : EStateM.Result (Failure WriteError) (Search F ρ σ) Unit}
    (h : Tells rows silent (none : Option σ) silent) : silent = resultWithSink none silent :=
  h.heard none (run_feed_none rows)

/-- **One action after another**: the rows of the first come before those of the second, which are
handed over only if the first did not end in an error. -/
theorem Transparent.bind (hx : Transparent x s)
    (hy : ∀ s', (x σ).run (s.withSink none) = .ok () s' → Transparent y s') :
    Transparent (fun τ _ => x τ >>= fun _ => y τ) s := by
  obtain ⟨rows, hrows⟩ := hx
  have hnone := (hrows σ none).silent_eq
  cases hsilent : (x σ).run (s.withSink none) with
  | error e s' =>
    rw [hsilent] at hrows
    have hstop : (x σ >>= fun _ => y σ).run (s.withSink none) = .error e s' := by
      rw [EStateM.run_bind, hsilent]
    refine ⟨rows, ?_⟩
    intro τ _ k
    rw [hstop, EStateM.run_bind]
    constructor
    · intro k' hk'
      rw [(hrows τ k).heard k' hk']
      rfl
    · intro w k' hk'
      obtain ⟨u, hu, hsink⟩ := (hrows τ k).refused w k' hk'
      rw [hu]
      exact ⟨u, rfl, hsink⟩
  | ok _ s' =>
    obtain ⟨rows', hrows'⟩ := hy s' hsilent
    rw [hsilent] at hrows hnone
    have hs' : s' = s'.withSink none := (EStateM.Result.ok.inj hnone).2
    have hgo : (x σ >>= fun _ => y σ).run (s.withSink none) =
        (y σ).run (s'.withSink none) := by
      rw [EStateM.run_bind, hsilent, ← hs']
    refine ⟨rows ++ rows', ?_⟩
    intro τ _ k
    rw [hgo, EStateM.run_bind]
    cases hfeed : (feed rows).run k with
    | error w told =>
      obtain ⟨u, hu, hsink⟩ := (hrows τ k).refused w told hfeed
      rw [hu]
      constructor
      · intro k' hk'
        rw [run_feed_append, hfeed] at hk'
        cases hk'
      · intro w' k' hk'
        rw [run_feed_append, hfeed] at hk'
        obtain ⟨rfl, rfl⟩ := EStateM.Result.error.inj hk'
        exact ⟨u, rfl, hsink⟩
    | ok _ told =>
      rw [(hrows τ k).heard told hfeed]
      constructor
      · intro k' hk'
        rw [run_feed_append, hfeed] at hk'
        exact (hrows' τ told).heard k' hk'
      · intro w k' hk'
        rw [run_feed_append, hfeed] at hk'
        exact (hrows' τ told).refused w k' hk'

end Transparent

/-! ## The loops -/

section Loops

variable [Scalar F] [WordSource ρ] [TraceSink F σ] {o : Objective F} {strategy : Strategy F}
  {schedule : Schedule F} {s : Search F ρ σ}

/-- **A move is transparent**: its trial is drawn before the sink is told. -/
theorem transparent_iterate (strategy : Strategy F) (hs : s.Sound o) :
    Transparent (fun _ _ => iterate o strategy) s := by
  obtain ⟨t, source, ht, -⟩ := o.succeeds_attempt strategy s.temperature hs.position s.source
  have hrun : ∀ (τ : Type) [TraceSink F τ] (k : Option τ),
      (iterate o strategy).run (s.withSink k) =
        if maxCount ≤ s.recorder.steps then
          .error (.fault .addOverflow) (settle t { s.withSink k with source })
        else ((s.withSink k).after t source).heard
          ((hand ((s.withSink k).after t source).row).run k) := by
    intro τ _ k
    exact run_iterate (hs.withSink k) ht
  by_cases hfull : maxCount ≤ s.recorder.steps
  · refine Transparent.of_result
      (r := .error (.fault .addOverflow) (settle t { s with source })) ?_
    intro τ _ k
    rw [hrun τ k, if_pos hfull]
    exact congrArg _ (settle_withSink t { s with source } k)
  · refine Transparent.of_heard (t := s.after t source) ?_
    intro τ _ k
    rw [hrun τ k, if_neg hfull, after_withSink]
    rfl

theorem transparent_sweep (n : Nat) (hs : s.Sound o) :
    Transparent (fun _ _ => sweep o strategy n) s := by
  -- Induction on the moves that remain; each leaves a sound search.
  induction n generalizing s with
  | zero => exact Transparent.of_result (r := .ok () s) fun _ _ _ => rfl
  | succ n ih =>
    refine (transparent_iterate strategy hs).bind ?_
    intro s' hs'
    exact ih ((hs.withSink none).of_iterate hs')

/-- **The levels are transparent.** -/
theorem transparent_descend (bound : Nat) (hs : s.Sound o) :
    Transparent (fun _ _ => descend o strategy schedule bound) s := by
  induction bound generalizing s with
  | zero => exact Transparent.of_result (r := .error (.fault .addOverflow) s) fun _ _ _ => rfl
  | succ bound ih =>
    by_cases hfrozen : schedule.frozen s.temperature = true
    · refine Transparent.of_result (r := .ok () s) ?_
      intro τ _ k
      rw [run_descend_succ, withSink_temperature, if_pos hfrozen]
      rfl
    · have hlevel : Transparent (fun τ _ => sweep o strategy schedule.iterationsPerTemperature >>=
          fun _ => modify (endLevel schedule) >>= fun _ =>
            (descend o strategy schedule bound : EStateM _ (Search F ρ τ) Unit)) s := by
        refine (transparent_sweep schedule.iterationsPerTemperature hs).bind ?_
        intro s' hs'
        have hsound : s'.Sound o :=
          ((Sound.invariant o strategy schedule).sweep (j := 0) (Nat.le_of_eq (Nat.zero_add _))
            (by simpa using hfrozen) (hs.withSink none) hs').1
        refine Transparent.bind (x := fun _ _ => modify (endLevel schedule))
          (Transparent.of_result (r := .ok () (endLevel schedule s')) fun _ _ _ => rfl) ?_
        intro s'' hs''
        obtain ⟨-, rfl⟩ := EStateM.Result.ok.inj hs''
        exact ih ((hsound.withSink none).endLevel schedule)
      refine hlevel.congr ?_
      intro τ _ k
      rw [run_descend_succ, withSink_temperature, if_neg hfrozen, EStateM.run_bind]
      cases (sweep o strategy schedule.iterationsPerTemperature).run (s.withSink k) <;> rfl

/-- **The course of a search is transparent.** -/
theorem transparent_course (strategy : Strategy F) (schedule : Schedule F) (hs : s.Sound o) :
    Transparent (fun _ _ => course o strategy schedule) s := by
  refine Transparent.bind (x := fun _ _ => announce)
    (Transparent.of_heard (t := s) fun _ _ _ => rfl) ?_
  intro s' hs'
  rw [run_announce] at hs'
  obtain ⟨-, rfl⟩ := EStateM.Result.ok.inj hs'
  exact transparent_descend _ (hs.withSink none)

end Loops

end Search

/-! ## The whole search -/

section Anneal

open Search

variable [TraceSink F τ]

/-- A search that is over, with another sink. -/
def Ended.withSink (sink : Option τ) (e : Ended F ρ σ) : Ended F ρ τ := { e with sink }

/-- **Telling**, for whole searches: what became of a search with the sink `k`, given what becomes
of it in silence and the rows that it hands over. -/
structure Ended.Tells (rows : List (TraceRow F)) (silent : Ended F ρ σ) (k : Option τ)
    (loud : Ended F ρ τ) : Prop where
  heard : ∀ k', (feed rows).run k = .ok () k' → loud = silent.withSink k'
  refused : ∀ w k', (feed rows).run k = .error w k' →
    loud.outcome = .error (.error (.trace w)) ∧ loud.sink = k'

theorem Ended.Tells.nil {silent : Ended F ρ σ} {k : Option τ} {loud : Ended F ρ τ}
    (h : loud = silent.withSink k) : Ended.Tells [] silent k loud where
  heard := by
    intro k' hk'
    obtain ⟨-, rfl⟩ := EStateM.Result.ok.inj hk'
    exact h
  refused := by
    intro w k' hk'
    cases hk'

variable [Scalar F]

omit [TraceSink F τ] in
theorem Search.finish_resultWithSink (o : Objective F) (schedule : Schedule F) (sink : Option τ)
    (r : EStateM.Result (Failure WriteError) (Search F ρ σ) Unit) :
    finish o schedule (resultWithSink sink r) = (finish o schedule r).withSink sink := by
  cases r <;> rfl

variable [WordSource ρ] [TraceSink F σ]

/-- **A search does not look at its sink**: the rows that it hands over are the same for every
sink. -/
theorem exists_rows_anneal (σ : Type) [TraceSink F σ] (o : Objective F) (strategy : Strategy F)
    (schedule : Schedule F) (source : ρ) :
    ∃ rows : List (TraceRow F), ∀ (τ : Type) [TraceSink F τ] (k : Option τ),
      Ended.Tells rows (anneal o strategy schedule source (none : Option σ)) k
        (anneal o strategy schedule source k) := by
  cases hc : schedule.check with
  | error e =>
    refine ⟨[], ?_⟩
    intro τ _ k
    apply Ended.Tells.nil
    rw [anneal_of_check_eq_error hc, anneal_of_check_eq_error hc]
    rfl
  | ok _ =>
    by_cases hn : o.inst.numClauses = 0
    · refine ⟨[], ?_⟩
      intro τ _ k
      apply Ended.Tells.nil
      rw [anneal_of_numClauses_eq_zero hc hn, anneal_of_numClauses_eq_zero hc hn]
      rfl
    · have hs : (opening o schedule (o.visited strategy schedule source 0)
          (o.remaining strategy schedule source 0) (none : Option σ)).Sound o :=
        ⟨o.visited_sound strategy schedule source 0, rfl⟩
      obtain ⟨rows, hrows⟩ := transparent_course strategy schedule hs
      refine ⟨rows, ?_⟩
      intro τ _ k
      rw [anneal_eq_finish hc hn, anneal_eq_finish hc hn]
      constructor
      · intro k' hk'
        rw [← finish_resultWithSink]
        exact congrArg _ ((hrows τ k).heard k' hk')
      · intro w k' hk'
        obtain ⟨u, hu, hsink⟩ := (hrows τ k).refused w k' hk'
        have hcourse : (course o strategy schedule).run
            (opening o schedule (o.visited strategy schedule source 0)
              (o.remaining strategy schedule source 0) k) = .error (.error w) u := hu
        rw [hcourse]
        exact ⟨rfl, hsink⟩

theorem anneal_of_tireless (σ : Type) [TraceSink F σ] (o : Objective F) (strategy : Strategy F)
    (schedule : Schedule F) (source : ρ) {k : τ} (hk : Tireless F k) :
    ∃ k', anneal o strategy schedule source (some k) =
      (anneal o strategy schedule source (none : Option σ)).withSink (some k') := by
  obtain ⟨rows, hrows⟩ := exists_rows_anneal σ o strategy schedule source
  obtain ⟨k', hk'⟩ := hk rows
  exact ⟨k', (hrows τ (some k)).heard _ hk'⟩

variable {o : Objective F} {strategy : Strategy F} {schedule : Schedule F} {source : ρ}
  {r : RunResult F}

/-- **The rows of a search** that reports a result in silence are those of the walk. -/
theorem anneal_tells (h : (anneal o strategy schedule source (none : Option σ)).outcome = .ok r)
    (k : Option τ) :
    Ended.Tells (o.rows strategy schedule source (r.iterations + 1))
      (anneal o strategy schedule source (none : Option σ)) k
      (anneal o strategy schedule source k) := by
  obtain ⟨rows, hrows⟩ := exists_rows_anneal σ o strategy schedule source
  have hlog := (hrows (RowLog F) (some {})).heard _ (run_feed_rowLog rows #[])
  have houtcome : (anneal o strategy schedule source (some ({} : RowLog F))).outcome = .ok r := by
    rw [hlog]
    exact h
  have hfeed := anneal_feed houtcome
  rw [hlog, run_feed_rowLog] at hfeed
  have hlogs := Option.some.inj (EStateM.Result.ok.inj hfeed).2
  have hsame : o.rows strategy schedule source (r.iterations + 1) = rows := by
    simpa using congrArg RowLog.rows hlogs
  rw [hsame]
  exact hrows τ k

/-- **A search that reports a result** reports the same one in silence and to a row log, which then
holds the rows of the walk. -/
theorem anneal_rowLog {sink : Option σ}
    (h : (anneal o strategy schedule source sink).outcome = .ok r) :
    (anneal o strategy schedule source (none : Option σ)).outcome = .ok r ∧
      (anneal o strategy schedule source (some ({} : RowLog F))).sink =
        some ⟨(o.rows strategy schedule source (r.iterations + 1)).toArray⟩ := by
  obtain ⟨rows, hrows⟩ := exists_rows_anneal σ o strategy schedule source
  have hsilent : (anneal o strategy schedule source (none : Option σ)).outcome = .ok r := by
    cases hfeed : (feed rows).run sink with
    | ok _ sink' =>
      rw [(hrows σ sink).heard sink' hfeed] at h
      exact h
    | error w sink' =>
      rw [((hrows σ sink).refused w sink' hfeed).1] at h
      cases h
  refine ⟨hsilent, ?_⟩
  rw [(anneal_tells hsilent (some ({} : RowLog F))).heard _ (run_feed_rowLog _ #[])]
  simp [Ended.withSink]

/-- A search with a sink that gives up late enough goes like the one without a sink; with one that
gives up early, it ends with the error of the sink, which has received the first rows. -/
theorem anneal_of_takesOnly
    (h : (anneal o strategy schedule source (none : Option σ)).outcome = .ok r) {n : Nat} {k : τ}
    (hk : TakesOnly F n k) {rows : List (TraceRow F)}
    (hrows : rows = o.rows strategy schedule source (r.iterations + 1)) :
    (r.iterations + 1 ≤ n → ∃ k', (feed rows).run (some k) = .ok () (some k') ∧
      anneal o strategy schedule source (some k) =
        (anneal o strategy schedule source (none : Option σ)).withSink (some k')) ∧
    ∀ hn : n < rows.length, ∃ k' w k'', (feed (rows.take n)).run (some k) = .ok () (some k') ∧
      (TraceSink.record rows[n]).run k' = .error w k'' ∧
      (anneal o strategy schedule source (some k)).outcome = .error (.error (.trace w)) ∧
      (anneal o strategy schedule source (some k)).sink = some k'' := by
  have htells := anneal_tells h (some k)
  rw [← hrows] at htells
  constructor
  · intro hn
    have hlength : rows.length ≤ n := by
      rw [hrows, o.length_rows]
      exact hn
    obtain ⟨k', hk'⟩ := hk.1 rows hlength
    exact ⟨k', hk', htells.heard _ hk'⟩
  · intro hn
    obtain ⟨k', w, k'', htaken, hrefused, hfeed⟩ := run_feed_of_takesOnly hk hn
    obtain ⟨houtcome, hsink⟩ := htells.refused _ _ hfeed
    exact ⟨k', w, k'', htaken, hrefused, houtcome, hsink⟩

end Anneal

end WeightedSat
