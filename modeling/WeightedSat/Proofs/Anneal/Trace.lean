import WeightedSat.Proofs.Anneal.Best

/-!
# The trace of a search

The rows that a search hands over tell of the states that it passes through, one row for each. The
search evaluates an assignment only once, when it is proposed; so a row says how the assignment is
evaluated only because the evaluation that is kept with a position stays the position's own, both
when a candidate replaces it and when it does not.

## Main definitions

* `TraceRow.Tells`: a row is the one for an assignment at a step
* `Instance.Flip`: one flip of a variable that a search may choose
* `Objective.Step`: what becomes of an assignment when a candidate is proposed

## Main results

* `Search.OnWalk.tells`, `Search.OnWalk.step`: one row, and one move
* `anneal_feed`: the rows that a search has handed over
* `anneal_trace`: the rows tell of the states, and the states are those of legal moves
-/

namespace WeightedSat

variable {F ρ σ : Type}

/-- **Telling**: the row is the one for the assignment at step `i`, with counts and energy that are
those of the assignment. -/
structure TraceRow.Tells [Scalar F] (row : TraceRow F) (o : Objective F) (i : Nat)
    (a : Assignment) : Prop where
  size_eq : a.size = o.inst.numVars
  step_eq : row.step = i
  countUnsatisfied_eq : o.inst.countUnsatisfied a = .ok row.unsatisfied
  unsatisfied_le : row.unsatisfied ≤ o.inst.numClauses
  satisfied_eq : row.satisfied = o.inst.numClauses - row.unsatisfied
  weight_eq : row.weight = o.inst.weightOf a
  energy_eq : row.energy = o.energyOf row.unsatisfied row.weight

/-- **Flip**: the second assignment is the first with one variable flipped. The variable occurs in
a clause that the first leaves unsatisfied, unless there is none. -/
def Instance.Flip (inst : Instance) (a b : Assignment) : Prop :=
  ∃ v < inst.numVars, b = a.modify v not ∧
    ((∀ c ∈ inst.clauses, c.isSatisfied a = .ok true) ∨
      ∃ c ∈ inst.clauses, c.isSatisfied a = .ok false ∧ ∃ l ∈ c.literals, l.var = v)

/-- **Step**: from `a` to `a'`, with the candidate `b`. The candidate is one flip away, and it is
taken if that does not raise the energy; otherwise it is taken or left. -/
structure Objective.Step [Scalar F] (o : Objective F) (a b a' : Assignment) : Prop where
  flip : o.inst.Flip a b
  taken_or_left : a' = b ∨ a' = a
  taken : ∃ e e', o.evaluate a = .ok e ∧ o.evaluate b = .ok e' ∧
    (Scalar.le (e'.energy - e.energy) 0.0 = true → a' = b)

theorem Move.Fits.flip {inst : Instance} {a : Assignment} {m : Move} (h : m.Fits inst a)
    (ha : inst.numVars ≤ a.size) : inst.Flip a (a.modify m.var not) := by
  have hread : ∀ c ∈ inst.clauses, c.isSatisfied a = .ok (c.holds a) := by
    intro c hc
    apply Clause.isSatisfied_eq_ok
    intro l hl
    exact Nat.lt_of_lt_of_le (inst.var_lt c hc l hl) ha
  refine ⟨m.var, h.var_lt, rfl, ?_⟩
  rcases h.exists_literal with hall | ⟨c, hc, hfalse, hl⟩
  · left
    intro c hc
    rw [hread c hc, hall c hc]
  · right
    refine ⟨c, hc, ?_, hl⟩
    rw [hread c hc, hfalse]

section Moves

variable [Scalar F] {o : Objective F} {p : Position F} {t : Trial F}

theorem Trial.Legal.step (ht : t.Legal o p) (hp : p.Sound o) :
    o.Step p.assignment t.candidate.assignment (t.next p).assignment where
  flip := by
    rw [ht.candidate_eq]
    exact ht.fits.flip (Nat.le_of_eq hp.size_eq.symm)
  taken_or_left := by
    unfold Trial.next
    by_cases haccepted : t.accepted = true
    · left
      rw [if_pos haccepted]
    · right
      rw [if_neg haccepted]
  taken := by
    refine ⟨p.toEvaluation, t.candidate.toEvaluation, hp.evaluate_eq_ok,
      ht.sound.evaluate_eq_ok, ?_⟩
    intro hle
    unfold Trial.next
    rw [if_pos (ht.accepted_of_le hle)]

end Moves

section Rows

variable [Scalar F] [WordSource ρ] [TraceSink F σ] {o : Objective F} {strategy : Strategy F}
  {schedule : Schedule F} {source : ρ} {sink : Option σ} {i : Nat} {s s' : Search F ρ σ}

/-- **The row of a state** on the walk tells of its assignment. -/
theorem Search.OnWalk.tells (h : OnWalk o strategy schedule source sink i s) :
    (o.rowAt strategy schedule source i).Tells o i s.position.assignment := by
  have hsound := o.visited_sound strategy schedule source i
  rw [h.position_eq]
  constructor
  · exact hsound.size_eq
  · rfl
  · exact hsound.countUnsatisfied_eq_ok
  · exact hsound.unsatisfied_le
  · rfl
  · exact hsound.weight_eq
  · exact hsound.energy_eq

/-- **Two states in succession** on the walk are the ends of a step, whose candidate is the one
that the first state proposes. -/
theorem Search.OnWalk.step (h : OnWalk o strategy schedule source sink i s)
    (h' : OnWalk o strategy schedule source sink (i + 1) s') :
    ∃ t, (o.attempt strategy s.temperature s.position).run s.source = .ok t s'.source ∧
      o.Step s.position.assignment t.candidate.assignment s'.position.assignment := by
  have hlegal := o.tried_legal strategy schedule source i
  have hsound := o.visited_sound strategy schedule source i
  refine ⟨o.tried strategy schedule source i, ?_, ?_⟩
  · rw [h'.source_eq]
    exact h.run_attempt
  · rw [h.position_eq, h'.position_eq, o.visited_succ]
    exact hlegal.step hsound

variable {r : RunResult F}

/-- **The rows of a search** that reports a result are the rows of the walk: one for its start and
one for each of its moves. -/
theorem anneal_feed (h : (anneal o strategy schedule source sink).outcome = .ok r) :
    (feed (o.rows strategy schedule source (r.iterations + 1))).run sink =
      .ok () (anneal o strategy schedule source sink).sink := by
  obtain ⟨s, hs, -, -, hclose⟩ := anneal_travelled h
  rw [hclose] at h ⊢
  obtain rfl := Except.ok.inj h
  exact hs.follows.fed

/-- **The trace of a search** has a row for its start and one for each of its moves, and no other.
Each row tells of the state that the search is in then, and from each state to the next there is a
step, whose candidate is the one that the state proposes. -/
theorem anneal_trace {k : σ} (h : (anneal o strategy schedule source (some k)).outcome = .ok r) :
    ∃ (s : Nat → Search F ρ σ) (rows : List (TraceRow F)) (k' : σ),
      Search.Itinerary o strategy schedule source (some k) r.iterations s ∧
      rows.length = r.iterations + 1 ∧
      (feed rows).run (some k) = .ok () (some k') ∧
      (anneal o strategy schedule source (some k)).sink = some k' ∧
      (∀ i ≤ r.iterations, ∃ row, rows[i]? = some row ∧ row.Tells o i (s i).position.assignment) ∧
      ∀ i < r.iterations, ∃ t,
        (o.attempt strategy (s i).temperature (s i).position).run (s i).source =
          .ok t (s (i + 1)).source ∧
        o.Step (s i).position.assignment t.candidate.assignment
          (s (i + 1)).position.assignment := by
  obtain ⟨s, hs, hwalk, -, -⟩ := anneal_itinerary h
  have hfeed := anneal_feed h
  obtain ⟨k', hk'⟩ := exists_some_of_run_feed hfeed
  rw [hk'] at hfeed
  refine ⟨s, o.rows strategy schedule source (r.iterations + 1), k', hs,
    o.length_rows strategy schedule source _, hfeed, hk', ?_, ?_⟩
  · intro i hi
    refine ⟨o.rowAt strategy schedule source i, ?_, (hwalk i hi).tells⟩
    exact o.getElem?_rows strategy schedule source (Nat.lt_succ_of_le hi)
  · intro i hi
    exact (hwalk i (Nat.le_of_lt hi)).step (hwalk (i + 1) hi)

end Rows

theorem pair_ends_rowLog :
    (anneal pairObjective .noise pairSchedule allOnes
        (some ({} : RowLog Float))).outcome.toOption.map (·.iterations) = some 2 := by
  decide +kernel

theorem anneal_trace_pair :
    ∃ (s : Nat → Search Float WordCycle (RowLog Float)) (rows : List (TraceRow Float)),
      Search.Itinerary pairObjective .noise pairSchedule allOnes (some {}) 2 s ∧
      rows.length = 3 ∧
      (anneal pairObjective .noise pairSchedule allOnes (some ({} : RowLog Float))).sink =
        some ⟨rows.toArray⟩ ∧
      ∀ i ≤ 2, ∃ row, rows[i]? = some row ∧
        row.Tells pairObjective i (s i).position.assignment := by
  obtain ⟨r, hr, hn⟩ := exists_ok_of_map pair_ends_rowLog
  obtain ⟨s, rows, k', hs, hlength, hfeed, hsink, hrows, -⟩ := anneal_trace hr
  rw [hn] at hs hlength hrows
  refine ⟨s, rows, hs, hlength, ?_, hrows⟩
  rw [run_feed_rowLog] at hfeed
  rw [hsink, ← Option.some.inj (EStateM.Result.ok.inj hfeed).2]
  simp

end WeightedSat
