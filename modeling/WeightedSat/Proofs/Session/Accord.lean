import WeightedSat.Proofs.Anneal.Trace
import WeightedSat.Proofs.Session.History

/-!
# What a session says of a search

After a search a session has three things to tell: the rows that went to the sink while the search
went on, the figures, and the best assignment. They are told at different times and from different
records, and they tell of the same search: the best of the rows is the standing in the figures, and
the standing of the assignment is the same again.

## Main definitions

* `Accord`: rows, figures and solution tell of one search of an instance

## Main results

* `getElem?_codesFrom`: the signed codes of an assignment, one for each variable
* `Session.exists_of_solve_eq_ok`: what a search that succeeds has done
* `Session.accord_of_solve`: its rows, its figures and its solution
-/

namespace WeightedSat

variable {F ρ σ : Type}

/-- **Accord**: the rows, the figures and the solution tell of one search of the instance. -/
structure Accord (inst : Instance) (rows : List (TraceRow F)) (summary : RunSummary)
    (solution : BestSolution) : Prop where
  length_rows : rows.length = summary.totalSteps + 1
  step_eq : ∀ (i : Nat) (row : TraceRow F), rows[i]? = some row → row.step = i
  exists_row : ∃ row ∈ rows, row.unsatisfied = summary.unsatisfied
  unsatisfied_le : ∀ row ∈ rows, summary.unsatisfied ≤ row.unsatisfied
  satisfied_add_eq : summary.satisfied + summary.unsatisfied = inst.numClauses
  summary_name : summary.instanceId = inst.name
  solution_name : solution.instanceId = summary.instanceId
  bestWeight_eq : solution.bestWeight = summary.bestWeight
  size_eq : solution.assignment.size = inst.numVars
  codes_eq : ∀ v : Nat,
    solution.codes[v]? = solution.assignment[v]?.map fun b => Literal.code ⟨v, b⟩
  weight_eq : inst.weightOf solution.assignment = summary.bestWeight
  countUnsatisfied_eq : inst.countUnsatisfied solution.assignment = .ok summary.unsatisfied

theorem getElem?_codesFrom (v i : Nat) (bs : List Bool) :
    (codesFrom v bs)[i]? = bs[i]?.map fun b => Literal.code ⟨v + i, b⟩ := by
  induction bs generalizing v i with
  | nil => rfl
  | cons b bs ih =>
    cases i with
    | zero => rfl
    | succ i =>
      rw [codesFrom, List.getElem?_cons_succ, List.getElem?_cons_succ, ih, Nat.add_right_comm,
        Nat.add_assoc]

theorem BestSolution.getElem?_codes (s : BestSolution) (v : Nat) :
    s.codes[v]? = s.assignment[v]?.map fun b => Literal.code ⟨v, b⟩ := by
  rw [codes, getElem?_codesFrom, Array.getElem?_toList, Nat.zero_add]

theorem Objective.mem_rows_iff [Scalar F] [WordSource ρ] {o : Objective F} {strategy : Strategy F}
    {s : Schedule F} {source : ρ} {n : Nat} {row : TraceRow F} :
    row ∈ o.rows strategy s source n ↔ ∃ i < n, o.rowAt strategy s source i = row := by
  simp [Objective.rows]

namespace Session

variable [Scalar F] [WordSource ρ] [TraceSink F σ] {s : Session F ρ} {mode : Mode F}
  {sink : Option σ} {r : RunResult F}

/-- **A search that succeeds** was one of the instance of the task, and its result is kept with
it. -/
theorem exists_of_solve_eq_ok (h : (s.solve mode sink).outcome = .ok r) :
    ∃ (task : Task F) (o : Objective F), s.task = some task ∧ o.inst = task.inst ∧
      (anneal o s.strategy (mode.resolve task.inst) s.source sink).outcome = .ok r ∧
      (s.solve mode sink).sink =
        (anneal o s.strategy (mode.resolve task.inst) s.source sink).sink ∧
      (s.solve mode sink).session.task = some { task with lastRun := some r } := by
  unfold solve at h ⊢
  cases htask : s.task with
  | none =>
    rw [htask] at h
    cases h
  | some task =>
    rw [htask] at h
    dsimp only at h ⊢
    cases hobjective : Objective.ofInstance (F := F) task.inst with
    | error c =>
      rw [hobjective] at h
      cases h
    | ok o =>
      rw [hobjective] at h
      dsimp only at h ⊢
      cases houtcome : (anneal o s.strategy (mode.resolve task.inst) s.source sink).outcome with
      | error e =>
        rw [houtcome] at h
        cases h
      | ok r' =>
        rw [houtcome] at h
        obtain rfl := Except.ok.inj h
        exact ⟨task, o, rfl, (Objective.eq_of_ofInstance hobjective).1, houtcome, rfl, rfl⟩

/-- **The rows, the figures and the solution** of a search that succeeds tell of the same search. -/
theorem accord_of_solve {inst : Instance} (hinst : s.inst? = some inst)
    (h : (s.solve mode sink).outcome = .ok r) :
    ∃ (rows : List (TraceRow F)) (summary : RunSummary) (solution : BestSolution),
      (feed rows).run sink = .ok () (s.solve mode sink).sink ∧
      (s.solve mode sink).session.completeSummary = .ok summary ∧
      (s.solve mode sink).session.bestSolution = .ok solution ∧
      Accord inst rows summary solution := by
  obtain ⟨task, o, htask, ho, houtcome, hsink, hkept⟩ := exists_of_solve_eq_ok h
  obtain rfl : task.inst = inst := by
    simpa [inst?, htask] using hinst
  have hbest : r.best.Belongs task.inst := ho ▸ anneal_belongs houtcome
  have hsound : (s.solve mode sink).session.Sound := by
    intro task' r' htask' hr'
    rw [hkept] at htask'
    obtain rfl := Option.some.inj htask'
    obtain rfl := Option.some.inj hr'
    exact ⟨hbest, (anneal_iterations_eq houtcome).2⟩
  have hlast : (s.solve mode sink).session.lastRun? = some r := by
    simp [lastRun?, hkept]
  obtain ⟨inst', hinst', -, hsolution, hsummary⟩ := hsound.summaries hlast
  obtain rfl : task.inst = inst' := by
    simpa [inst?, hkept] using hinst'
  obtain ⟨k, hk, hfirst, -⟩ := anneal_best_eq houtcome
  refine ⟨o.rows s.strategy (mode.resolve task.inst) s.source (r.iterations + 1), _, _, ?_,
    hsummary, hsolution, ?_⟩
  · rw [hsink]
    exact anneal_feed houtcome
  · constructor
    · exact o.length_rows s.strategy (mode.resolve task.inst) s.source _
    · intro i row hrow
      have hi : i < r.iterations + 1 := by
        have hlt := (List.getElem?_eq_some_iff.mp hrow).1
        rwa [o.length_rows] at hlt
      rw [o.getElem?_rows s.strategy (mode.resolve task.inst) s.source hi] at hrow
      obtain rfl := Option.some.inj hrow
      rfl
    · refine ⟨_, Objective.mem_rows_iff.mpr ⟨k, Nat.lt_succ_of_le hk.le, rfl⟩, ?_⟩
      rw [hfirst]
      rfl
    · intro row hrow
      obtain ⟨i, hi, rfl⟩ := Objective.mem_rows_iff.mp hrow
      rw [hfirst]
      exact hk.unsatisfied_le (Nat.le_of_lt_succ hi)
    · exact Nat.sub_add_cancel hbest.unsatisfied_le
    · rfl
    · rfl
    · rfl
    · exact hbest.size_eq
    · exact BestSolution.getElem?_codes _
    · exact hbest.weight_eq.symm
    · exact hbest.countUnsatisfied_eq

end Session

end WeightedSat
