import WeightedSat.Proofs.Anneal.Descent

/-!
# One variable is always solved

A search may turn a candidate down, and the best state is chosen among the states that it has passed
through. Over exact scalars and under the default penalty nothing is lost by that: what beats the
current standing has no more energy, so it is accepted without a draw, and no candidate that was
ever tried beats the best state.

An instance of one variable has two assignments. The search starts at one of them, its first move
can only lead to the other, and a schedule in order has a first move. So whatever the clauses are,
and however the moves are chosen and decided, no assignment beats the best state.

## Main definitions

* `exactContrary`: an objective whose heavier assignment leaves one more clause unsatisfied

## Main results

* `Trial.Legal.accepted_of_beats`: a candidate that beats the current standing is accepted
* `Objective.not_beats_tried`: no candidate of the walk beats its best state
* `anneal_iterations_pos`: a search that reports a result has made a move
* `anneal_single`: the searches of instances of one variable
-/

namespace WeightedSat

variable {F ρ σ : Type}

/-! ## Two assignments -/

/-- An assignment of one variable is any other one, or its flip. -/
theorem Assignment.eq_or_eq_modify_not {a b : Assignment} (ha : a.size = 1) (hb : b.size = 1) :
    b = a ∨ b = a.modify 0 not := by
  by_cases hvalue : b[0] = a[0]
  · left
    ext i hi hi'
    · rw [ha, hb]
    · obtain rfl : i = 0 := by omega
      exact hvalue
  · right
    ext i hi hi'
    · rw [Array.size_modify, ha, hb]
    · obtain rfl : i = 0 := by omega
      rw [Array.getElem_modify, if_pos rfl]
      exact Bool.eq_not_of_ne hvalue

section Scalars

variable [Scalar F] [WordSource ρ]

/-- **Two assignments are all there are**: the start of a walk over one variable and its first
candidate. -/
theorem Objective.eq_visited_or_eq_tried (o : Objective F) (strategy : Strategy F)
    (s : Schedule F) (source : ρ) (hvars : o.inst.numVars = 1) {a : Assignment} (ha : a.size = 1) :
    a = (o.visited strategy s source 0).assignment ∨
      a = (o.tried strategy s source 0).candidate.assignment := by
  have hsize := (o.visited_sound strategy s source 0).size_eq
  have hlegal := o.tried_legal strategy s source 0
  have hvar : (o.tried strategy s source 0).move.var = 0 := by
    have hlt := hlegal.fits.var_lt
    omega
  rw [hlegal.candidate_eq, hvar]
  exact Assignment.eq_or_eq_modify_not (hsize.trans hvars) ha

/-- **A search that reports a result** has made a move. -/
theorem anneal_iterations_pos [TraceSink F σ] {o : Objective F} {strategy : Strategy F}
    {schedule : Schedule F} {source : ρ} {sink : Option σ} {r : RunResult F}
    (h : (anneal o strategy schedule source sink).outcome = .ok r) :
    0 < r.iterations := by
  obtain ⟨hcheck, -⟩ := anneal_started h
  obtain ⟨hfreezes, -, -, -⟩ := anneal_eq_report h
  obtain ⟨hschedule, hiterations⟩ := anneal_iterations_eq h
  rw [hiterations, hschedule]
  exact Nat.mul_pos (hfreezes.pos hcheck)
    (Nat.pos_of_ne_zero (schedule.iterationsPerTemperature_ne_zero hcheck))

end Scalars

section Exact

variable {K : Type} [Field K] [LinearOrder K] [FloorSemiring K] [Elementary K]
  [IsStrictOrderedRing K] {inst : Instance} {o : Objective K}

/-- **A candidate that beats the current standing** is accepted, since it has no more energy. -/
theorem Trial.Legal.accepted_of_beats (ho : Objective.ofInstance inst = .ok o) {p : Position K}
    {t : Trial K} (hp : p.Sound o) (ht : t.Legal o p)
    (h : t.candidate.toStanding.beats p.toStanding) : t.accepted = true := by
  -- What is rejected has more energy, and what beats has not.
  by_contra hrejected
  have hlt : p.energy < t.candidate.energy :=
    ht.energy_lt_of_rejected (Bool.eq_false_of_not_eq_true hrejected)
  have hle : t.candidate.energy ≤ p.energy := by
    rw [hp.energy_eq, ht.sound.energy_eq]
    exact Objective.energyOf_le_of_supersedes ho (.inr h)
  exact absurd hlt (not_lt.mpr hle)

/-- **No candidate beats the best state**, be it accepted or not: if it is accepted, it is the next
state, and if it is not, it does not beat the state that it was tried from. -/
theorem Objective.not_beats_tried [WordSource ρ] (ho : Objective.ofInstance inst = .ok o)
    (strategy : Strategy K) (s : Schedule K) (source : ρ) {n k : Nat}
    (hk : FirstUnbeaten (fun i => (o.visited strategy s source i).toStanding) n k) {i : Nat}
    (hi : i < n) :
    ¬ (o.tried strategy s source i).candidate.toStanding.beats
      (o.visited strategy s source k).toStanding := by
  cases haccepted : (o.tried strategy s source i).accepted with
  | true =>
    rw [← o.visited_succ_of_accepted strategy s source i haccepted]
    exact hk.not_beats (i + 1) hi
  | false =>
    have hcurrent : ¬ (o.tried strategy s source i).candidate.toStanding.beats
        (o.visited strategy s source i).toStanding := by
      intro hbeats
      have htrue := (o.tried_legal strategy s source i).accepted_of_beats ho
        (o.visited_sound strategy s source i) hbeats
      rw [haccepted] at htrue
      cases htrue
    exact Standing.not_beats_trans hcurrent (hk.not_beats i hi.le)

/-! ## Searches -/

variable (K) in
/-- **One variable is always solved.** Over exact scalars, an instance of one variable with weight
has a default objective. Whatever its clauses are, and whatever strategy, mode and source a search
of it is given, if it reports a result, then the best state belongs to the instance, and neither of
the two assignments beats it. -/
theorem anneal_single {inst : Instance} (hvars : inst.numVars = 1)
    (hweight : 0 < inst.totalWeight) :
    ∃ o : Objective K, Objective.ofInstance inst = .ok o ∧
      ∀ {ρ σ : Type} [WordSource ρ] [TraceSink K σ] (strategy : Strategy K) (mode : Mode K)
        (source : ρ) (sink : Option σ) (r : RunResult K),
        (anneal o strategy (mode.resolve inst) source sink).outcome = .ok r →
        r.best.Belongs inst ∧
          ∀ a : Assignment, a.size = 1 →
            ∃ e, o.evaluate a = .ok e ∧ ¬ e.toStanding.beats r.best.toStanding := by
  obtain ⟨o, ho⟩ := Objective.exists_ofInstance (F := K) hweight.ne'
  refine ⟨o, ho, fun {ρ σ} _ _ strategy mode source sink r h => ?_⟩
  obtain ⟨rfl, -⟩ := Objective.eq_of_ofInstance ho
  obtain ⟨k, hk, hbest, -⟩ := anneal_best_eq h
  refine ⟨anneal_belongs h, fun a ha => ?_⟩
  rw [hbest]
  rcases o.eq_visited_or_eq_tried strategy (mode.resolve o.inst) source hvars ha with rfl | rfl
  · exact ⟨_, (o.visited_sound strategy (mode.resolve o.inst) source 0).evaluate_eq_ok,
      hk.not_beats 0 (Nat.zero_le _)⟩
  · exact ⟨_, (o.tried_legal strategy (mode.resolve o.inst) source 0).sound.evaluate_eq_ok,
      Objective.not_beats_tried ho strategy (mode.resolve o.inst) source hk
        (anneal_iterations_pos h)⟩

end Exact

/-- The variable of the forbidding clause once more, heavier, and forbidden twice, asked for and
left free by further clauses. -/
def contraryInstance : Instance :=
  { Objective.forbiddenInstance with
    name := "contrary"
    declaredClauses := 4
    weights := [3]
    clauses := [Objective.forbiddenInstance.clauses.head (by decide),
      ⟨[⟨0, false⟩, ⟨0, false⟩], by decide⟩, ⟨[⟨0, true⟩, ⟨0, true⟩], by decide⟩,
      ⟨[⟨0, false⟩, ⟨0, true⟩], by decide⟩]
    length_weights := rfl
    total_weights_le := by decide
    var_lt := by decide }

/-- Its default objective, over the rational numbers. -/
def exactContrary : Objective ℚ :=
  ⟨contraryInstance, (3 : Nat), 3, rfl, by decide, by decide⟩

theorem exactContrary_ends :
    letI : Elementary ℚ := ⟨id, id⟩
    (anneal exactContrary .greedy exactSchedule allZeros
        (none : Option (RowLog ℚ))).outcome.toOption.map (·.best) =
      some ⟨⟨1, 0⟩, #[false]⟩ := by
  decide +kernel

/-- The search of the contrary clauses reports the lighter assignment, although the heavier one has
the same energy. -/
theorem anneal_single_contrary :
    letI : Elementary ℚ := ⟨id, id⟩
    ∃ (r : RunResult ℚ) (es et : Evaluation ℚ),
      contraryInstance.numVars = 1 ∧ 0 < contraryInstance.totalWeight ∧
      (anneal exactContrary .greedy exactSchedule allZeros
        (none : Option (RowLog ℚ))).outcome = .ok r ∧
      r.best = ⟨⟨1, 0⟩, #[false]⟩ ∧ r.best.Belongs contraryInstance ∧
      exactContrary.evaluate #[false] = .ok es ∧ ¬ es.toStanding.beats r.best.toStanding ∧
      exactContrary.evaluate #[true] = .ok et ∧ ¬ et.toStanding.beats r.best.toStanding := by
  let elementary : Elementary ℚ := ⟨id, id⟩
  have hvars : contraryInstance.numVars = 1 := rfl
  have hweight : 0 < contraryInstance.totalWeight := by decide
  obtain ⟨o, ho, hruns⟩ := anneal_single ℚ hvars hweight
  obtain rfl : exactContrary = o := Except.ok.inj ho
  obtain ⟨r, hr, hbest⟩ := exists_ok_of_map exactContrary_ends
  obtain ⟨hbelongs, hunbeaten⟩ := hruns .greedy (.explicit exactSchedule) allZeros none r hr
  obtain ⟨es, hes, hs⟩ := hunbeaten #[false] rfl
  obtain ⟨et, het, ht⟩ := hunbeaten #[true] rfl
  exact ⟨r, es, et, hvars, hweight, hr, hbest, hbelongs, hes, hs, het, ht⟩

end WeightedSat
