import WeightedSat.Record.Recorder

/-!
# Feeding rows to a sink

A recorder hands over its rows one by one, and a sink that refuses one ends the run. What a sink
becomes is therefore what it is after it has been fed the rows in order, up to the first that it
refuses; a recorder without a sink feeds nothing.

## Main definitions

* `hand row`, `feed rows`: one row, or several, for a sink that may be missing
* `Recorder.row e`: the row for an evaluation at the current step
* `TakesOnly n k`: the sink `k` takes `n` rows, whatever they are, and refuses the next

## Main results

* `run_feed_append`: feeding in two parts
* `run_feed_rowLog`: a row log keeps exactly the rows that it is fed
* `run_feed_of_takesOnly`: of any rows, such a sink receives the first `n`
* `Recorder.run_emit`, `Recorder.run_step`: what a recorder hands over
-/

namespace WeightedSat

variable {F σ : Type} [TraceSink F σ]

/-- Hands over a row, if there is a sink. -/
def hand (row : TraceRow F) : EStateM WriteError (Option σ) Unit := fun sink =>
  match sink with
  | none => .ok () none
  | some k =>
    match (TraceSink.record row).run k with
    | .ok _ k => .ok () (some k)
    | .error w k => .error w (some k)

theorem run_hand_some (row : TraceRow F) (k : σ) :
    (hand row).run (some k) =
      match (TraceSink.record row).run k with
      | .ok _ k => .ok () (some k)
      | .error w k => .error w (some k) := rfl

/-- **Feeding**: hands over rows one by one, up to the first that is refused. -/
def feed : List (TraceRow F) → EStateM WriteError (Option σ) Unit
  | [] => pure ()
  | row :: rows => do
    hand row
    feed rows

theorem run_feed_nil (sink : Option σ) :
    (feed ([] : List (TraceRow F))).run sink = .ok () sink := rfl

theorem run_feed_cons (row : TraceRow F) (rows : List (TraceRow F)) (sink : Option σ) :
    (feed (row :: rows)).run sink =
      match (hand row).run sink with
      | .ok _ sink => (feed rows).run sink
      | .error w sink => .error w sink := by
  rw [feed, EStateM.run_bind]
  cases (hand row).run sink <;> rfl

/-- Feeding in two parts: the second part is for the sink that the first one leaves. -/
theorem run_feed_append (rows rows' : List (TraceRow F)) (sink : Option σ) :
    (feed (rows ++ rows')).run sink =
      match (feed rows).run sink with
      | .ok _ sink => (feed rows').run sink
      | .error w sink => .error w sink := by
  -- Induction on the first part, for all sinks: it ends at a refused row or is used up.
  induction rows generalizing sink with
  | nil => rfl
  | cons row rows ih =>
    rw [List.cons_append, run_feed_cons, run_feed_cons]
    cases (hand row).run sink with
    | ok _ sink => exact ih sink
    | error w sink => rfl

theorem run_feed_singleton (row : TraceRow F) (sink : Option σ) :
    (feed [row]).run sink = (hand row).run sink := by
  rw [run_feed_cons]
  cases (hand row).run sink <;> rfl

theorem run_feed_none (rows : List (TraceRow F)) :
    (feed rows).run (none : Option σ) = .ok () none := by
  induction rows with
  | nil => rfl
  | cons row rows ih => exact ih

theorem exists_some_of_run_feed {rows : List (TraceRow F)} {k : σ} {sink : Option σ}
    (h : (feed rows).run (some k) = .ok () sink) : ∃ k', sink = some k' := by
  induction rows generalizing k with
  | nil =>
    obtain ⟨-, rfl⟩ := EStateM.Result.ok.inj h
    exact ⟨k, rfl⟩
  | cons row rows ih =>
    rw [run_feed_cons, run_hand_some] at h
    cases hrow : (TraceSink.record row).run k with
    | ok _ k =>
      rw [hrow] at h
      exact ih h
    | error w k =>
      rw [hrow] at h
      cases h

/-- **A row log** keeps exactly the rows that it is fed, in order. -/
theorem run_feed_rowLog (rows : List (TraceRow F)) (log : Array (TraceRow F)) :
    (feed rows).run (some (⟨log⟩ : RowLog F)) = .ok () (some ⟨log ++ rows.toArray⟩) := by
  induction rows generalizing log with
  | nil => simp [run_feed_nil]
  | cons row rows ih =>
    rw [run_feed_cons]
    exact (ih (log.push row)).trans (by simp)

/-! ## Sinks that never give up, and sinks that do -/

/-- **A tireless sink** takes all rows, whatever they are. -/
def Tireless (F : Type) [TraceSink F σ] (k : σ) : Prop :=
  ∀ rows : List (TraceRow F), ∃ k', (feed rows).run (some k) = .ok () (some k')

theorem tireless_rowLog (log : RowLog F) : Tireless F log := by
  intro rows
  exact ⟨_, run_feed_rowLog rows log.rows⟩

/-- **A sink that takes `n` rows**, whatever they are, and refuses the one after them. -/
def TakesOnly (F : Type) [TraceSink F σ] (n : Nat) (k : σ) : Prop :=
  (∀ rows : List (TraceRow F), rows.length ≤ n →
    ∃ k', (feed rows).run (some k) = .ok () (some k')) ∧
  ∀ (rows : List (TraceRow F)) (row : TraceRow F) (k' : σ), rows.length = n →
    (feed rows).run (some k) = .ok () (some k') →
      ∃ w k'', (TraceSink.record row).run k' = .error w k''

theorem run_feed_quota {rows : List (TraceRow F)} {n : Nat} (hn : rows.length ≤ n) :
    (feed rows).run (some (Quota.mk n)) = .ok () (some ⟨n - rows.length⟩) := by
  induction rows generalizing n with
  | nil => rfl
  | cons row rows ih =>
    rw [List.length_cons] at hn ⊢
    have hrow : (hand row).run (some (Quota.mk n)) = .ok () (some (Quota.mk (n - 1))) := by
      have hleft : n ≠ 0 := by omega
      simp only [run_hand_some, TraceSink.record, EStateM.run_bind, EStateM.run_get, if_neg hleft]
      rfl
    rw [run_feed_cons, hrow]
    dsimp only
    rw [ih (by omega), Nat.sub_sub, Nat.add_comm]

/-- **A quota** takes as many rows as it says. -/
theorem takesOnly_quota (n : Nat) : TakesOnly F n (Quota.mk n) := by
  constructor
  · intro rows hn
    exact ⟨_, run_feed_quota hn⟩
  · intro rows row k' hn hfeed
    rw [run_feed_quota (Nat.le_of_eq hn), hn, Nat.sub_self] at hfeed
    obtain ⟨-, hk'⟩ := EStateM.Result.ok.inj hfeed
    rw [← Option.some.inj hk']
    exact ⟨.diskFull, ⟨0⟩, rfl⟩

theorem run_feed_of_takesOnly {n : Nat} {k : σ} (h : TakesOnly F n k) {rows : List (TraceRow F)}
    (hn : n < rows.length) :
    ∃ k' w k'', (feed (rows.take n)).run (some k) = .ok () (some k') ∧
      (TraceSink.record rows[n]).run k' = .error w k'' ∧
      (feed rows).run (some k) = .error w (some k'') := by
  have hlen : (rows.take n).length = n := List.length_take_of_le (Nat.le_of_lt hn)
  obtain ⟨k', hk'⟩ := h.1 (rows.take n) (Nat.le_of_eq hlen)
  obtain ⟨w, k'', hw⟩ := h.2 (rows.take n) rows[n] k' hlen hk'
  refine ⟨k', w, k'', hk', hw, ?_⟩
  have hsplit : rows = rows.take n ++ rows[n] :: rows.drop (n + 1) := by
    rw [List.getElem_cons_drop, List.take_append_drop]
  rw [hsplit, run_feed_append, hk']
  dsimp only
  rw [run_feed_cons, run_hand_some, hw]

/-! ## Recorders -/

namespace Recorder

/-- The row for an evaluation at the current step. -/
def row (r : Recorder σ) (e : Evaluation F) : TraceRow F :=
  { e with step := r.steps, satisfied := r.numClauses - e.unsatisfied }

/-- A recorder that has handed over a row, or failed to. -/
def heard (r : Recorder σ) :
    EStateM.Result WriteError (Option σ) Unit →
      EStateM.Result (Failure WriteError) (Recorder σ) Unit
  | .ok _ sink => .ok () { r with sink }
  | .error w sink => .error (.error w) { r with sink }

/-- A recorder hands over the row for its evaluation, as long as no more clauses are unsatisfied
than there are. -/
theorem run_emit {r : Recorder σ} {e : Evaluation F} (h : e.unsatisfied ≤ r.numClauses) :
    (emit e).run r = r.heard ((hand (r.row e)).run r.sink) := by
  have hle : ¬ r.numClauses < e.unsatisfied := Nat.not_lt_of_le h
  obtain ⟨best, steps, numClauses, sink⟩ := r
  cases sink with
  | none => rfl
  | some k =>
    rw [run_hand_some]
    unfold emit EStateM.run
    dsimp only
    rw [if_neg hle]
    change (match TraceSink.record (row ⟨best, steps, numClauses, some k⟩ e) k with
      | .ok _ k => _
      | .error w k => _) = _
    cases TraceSink.record (row ⟨best, steps, numClauses, some k⟩ e) k <;> rfl

theorem run_step {r : Recorder σ} {e : Evaluation F} (h : e.unsatisfied ≤ r.numClauses) :
    (step e).run r =
      if maxCount ≤ r.steps then .error (.fault .addOverflow) r
      else
        let counted := { r with steps := r.steps + 1 }
        counted.heard ((hand (counted.row e)).run r.sink) := by
  have hemit := run_emit (F := F) (r := { r with steps := r.steps + 1 }) h
  simp only [step, EStateM.run_bind, EStateM.run_get]
  split
  · rfl
  · exact hemit

end Recorder

end WeightedSat
