import WeightedSat.Proofs.Anneal.Tuning
import WeightedSat.Proofs.Anneal.Twin

/-!
# The unit of weights does not matter

If all weights of an instance are multiplied by one positive number, then so are the weight of every
assignment, the gap to the full weight, the default penalty and the average weight. The energy is a
quotient of these, so over exact scalars it stays as it is, and the tuned schedule does not depend
on the weights at all. The two instances therefore have twin objectives, and their searches are in
step.

## Main definitions

* `Instance.scale inst k h`: the instance with all weights times `k`

## Main results

* `Instance.weightOf_scale`, `Standing.cost_scale`: weights and costs are multiplied
* `Objective.twin_scale`: the default objectives of the two instances are twins
* `anneal_scale`: evaluations, tuned schedules and searches of the two instances
-/

namespace WeightedSat

theorem total_map_mul (k : Nat) (ws : List Nat) : total (ws.map (k * ·)) = k * total ws := by
  induction ws with
  | nil => rfl
  | cons w ws ih => rw [List.map_cons, total_cons, total_cons, ih, Nat.mul_add]

namespace Instance

/-- The instance with all weights times `k`, provided that they still have a sum. -/
def scale (inst : Instance) (k : Nat) (h : k * inst.totalWeight ≤ maxCount) : Instance :=
  { inst with
    weights := inst.weights.map (k * ·)
    length_weights := by rw [List.length_map, inst.length_weights]
    total_weights_le := by rwa [total_map_mul] }

variable {inst : Instance} {k : Nat} (h : k * inst.totalWeight ≤ maxCount)

theorem totalWeight_scale : (inst.scale k h).totalWeight = k * inst.totalWeight :=
  total_map_mul k inst.weights

theorem weightOf_scale (a : Assignment) :
    (inst.scale k h).weightOf a = k * inst.weightOf a := by
  unfold weightOf scale
  rw [← total_map_mul, List.map_zipWith, List.zipWith_map_left]
  congr 2
  funext w b
  cases b <;> simp

end Instance

/-- A cost is multiplied along with the weights. -/
theorem Standing.cost_scale (k full : Nat) (s : Standing) :
    (s.scale k).cost (k * full) = k * s.cost full := by
  simp only [cost, scale, Nat.mul_add, Nat.mul_sub, Nat.mul_left_comm]

section Exact

variable {K : Type} [Field K] [LinearOrder K] [FloorSemiring K] [Elementary K]

/-! ## Twins -/

namespace Objective

variable {inst : Instance} {k : Nat} {h : k * inst.totalWeight ≤ maxCount} {o o' : Objective K}

theorem averageWeight_scale (ho : ofInstance inst = .ok o)
    (ho' : ofInstance (inst.scale k h) = .ok o') :
    o'.averageWeight = (k : K) * o.averageWeight := by
  obtain ⟨hinst, -⟩ := eq_of_ofInstance ho
  obtain ⟨hinst', -⟩ := eq_of_ofInstance ho'
  rw [averageWeight_eq, averageWeight_eq, hinst, hinst', Instance.totalWeight_scale, Nat.cast_mul,
    mul_div_assoc]
  rfl

/-- **The energy stays as it is**: both the cost and the unit are multiplied. -/
theorem energyOf_scale (hk : 1 ≤ k) (ho : ofInstance inst = .ok o)
    (ho' : ofInstance (inst.scale k h) = .ok o') (unsatisfied weight : Nat) :
    o'.energyOf unsatisfied (k * weight) = o.energyOf unsatisfied weight := by
  have hk' : (k : K) ≠ 0 := Nat.cast_ne_zero.mpr (by omega)
  calc o'.energyOf unsatisfied (k * weight)
    _ = ((Standing.scale k ⟨unsatisfied, weight⟩).cost (inst.scale k h).totalWeight : K) /
        o'.averageWeight := energyOf_eq_cost ho' (Standing.scale k ⟨unsatisfied, weight⟩)
    _ = ((k : K) * (Standing.cost inst.totalWeight ⟨unsatisfied, weight⟩ : K)) /
        ((k : K) * o.averageWeight) := by
      rw [Instance.totalWeight_scale, Standing.cost_scale, Nat.cast_mul,
        averageWeight_scale ho ho']
    _ = (Standing.cost inst.totalWeight ⟨unsatisfied, weight⟩ : K) / o.averageWeight :=
      mul_div_mul_left _ _ hk'
    _ = o.energyOf unsatisfied weight :=
      (energyOf_eq_cost ho (⟨unsatisfied, weight⟩ : Standing)).symm

/-- **The default objectives** of the two instances are twins. -/
theorem twin_scale (hk : 1 ≤ k) (ho : ofInstance inst = .ok o)
    (ho' : ofInstance (inst.scale k h) = .ok o') : Twin k 0 o o' := by
  obtain ⟨hinst, -⟩ := eq_of_ofInstance ho
  obtain ⟨hinst', -⟩ := eq_of_ofInstance ho'
  constructor
  · exact hk
  · rw [hinst, hinst']
    rfl
  · rw [hinst, hinst']
    rfl
  · rw [hinst, hinst']
    exact id
  · intro a _
    rw [hinst, hinst']
    rfl
  · intro a
    rw [hinst, hinst', Instance.weightOf_scale]
  · exact energyOf_scale hk ho ho'

/-- **Evaluations** of the two objectives are the same but for the weight, on assignments of
whatever length. -/
theorem evaluate_scale (hk : 1 ≤ k) (ho : ofInstance inst = .ok o)
    (ho' : ofInstance (inst.scale k h) = .ok o') (a : Assignment) :
    o'.evaluate a = (o.evaluate a).map (Evaluation.scale k) := by
  obtain ⟨hinst, -⟩ := eq_of_ofInstance ho
  obtain ⟨hinst', -⟩ := eq_of_ofInstance ho'
  have hcount : o'.inst.countUnsatisfied a = o.inst.countUnsatisfied a := by
    rw [hinst, hinst']
    rfl
  have hweight : o'.inst.weightOf a = k * o.inst.weightOf a := by
    rw [hinst, hinst', Instance.weightOf_scale]
  unfold evaluate
  rw [hcount, hweight]
  cases o.inst.countUnsatisfied a with
  | error f => rfl
  | ok unsatisfied =>
    dsimp only
    rw [energyOf_scale hk ho ho']
    rfl

end Objective

variable (K) in
/-- **The unit of weights does not matter.** Over exact scalars, an instance with weight and the
same instance with all weights times a positive number both have a default objective. Every
assignment is evaluated to the same energy and the same number of unsatisfied clauses under both,
with its weight times that number; the tuned schedules are the same; and under every mode, with
every strategy and from every source, the searches of the two are in step. -/
theorem anneal_scale {inst : Instance} {k : Nat} (hweight : 0 < inst.totalWeight) (hk : 1 ≤ k)
    (hfit : k * inst.totalWeight ≤ maxCount) :
    ∃ o o' : Objective K, Objective.ofInstance inst = .ok o ∧
      Objective.ofInstance (inst.scale k hfit) = .ok o' ∧
      (∀ a : Assignment, o'.evaluate a = (o.evaluate a).map (Evaluation.scale k) ∧
        (inst.numVars ≤ a.size → ∃ e, o.evaluate a = .ok e)) ∧
      (Schedule.tuned (inst.scale k hfit) : Schedule K) = Schedule.tuned inst ∧
      ∀ {ρ : Type} [WordSource ρ] (strategy : Strategy K) (mode : Mode K) (source : ρ),
        mode.resolve (inst.scale k hfit) = mode.resolve inst ∧
          Objective.InStep (RunResult.scale k) (Position.scale k) (TraceRow.retell k 0) o o'
            strategy (mode.resolve inst) source := by
  have hweight' : (inst.scale k hfit).totalWeight ≠ 0 := by
    rw [Instance.totalWeight_scale]
    positivity
  obtain ⟨o, ho⟩ := Objective.exists_ofInstance (F := K) hweight.ne'
  obtain ⟨o', ho'⟩ := Objective.exists_ofInstance (F := K) hweight'
  have htuned : (Schedule.tuned (inst.scale k hfit) : Schedule K) = Schedule.tuned inst := by
    rw [Schedule.tuned_eq, Schedule.tuned_eq]
    rfl
  refine ⟨o, o', ho, ho', ?_, htuned, ?_⟩
  · intro a
    refine ⟨Objective.evaluate_scale hk ho ho' a, fun ha => ⟨_, o.evaluate_eq_ok ?_⟩⟩
    rwa [(Objective.eq_of_ofInstance ho).1]
  · intro ρ _ strategy mode source
    constructor
    · cases mode with
      | explicit s => rfl
      | auto => exact htuned
    · exact (Objective.twin_scale hk ho ho').inStep strategy (mode.resolve inst) source

end Exact

/-- The default objective of the pair, over the rational numbers. -/
def exactPair : Objective ℚ :=
  ⟨pairInstance, (8 : Nat), 8, pairObjective.idealWeight_eq, pairObjective.numVars_ne_zero,
    pairObjective.totalWeight_ne_zero⟩

def exactSchedule : Schedule ℚ := ⟨2, 1 / 2, 3 / 2, 2⟩

theorem exactPair_ends :
    letI : Elementary ℚ := ⟨id, id⟩
    (anneal exactPair .noise exactSchedule allOnes
        (none : Option (RowLog ℚ))).outcome.toOption.map (·.best) =
      some ⟨⟨0, 8⟩, #[true, true]⟩ := by
  decide +kernel

theorem anneal_scale_pair :
    letI : Elementary ℚ := ⟨id, id⟩
    ∃ (o' : Objective ℚ) (r r' : RunResult ℚ),
      Objective.ofInstance (pairInstance.scale 3 (by decide)) = .ok o' ∧
      (anneal exactPair .noise exactSchedule allOnes (none : Option (RowLog ℚ))).outcome = .ok r ∧
      (anneal o' .noise exactSchedule allOnes (none : Option (RowLog ℚ))).outcome = .ok r' ∧
      r.best = ⟨⟨0, 8⟩, #[true, true]⟩ ∧ r'.best = ⟨⟨0, 24⟩, #[true, true]⟩ := by
  let elementary : Elementary ℚ := ⟨id, id⟩
  have hfit : 3 * pairInstance.totalWeight ≤ maxCount := by decide
  obtain ⟨o, o', ho, ho', -, -, hruns⟩ := anneal_scale ℚ (by decide) (by decide) hfit
  obtain rfl : exactPair = o := Except.ok.inj ho
  obtain ⟨r, hr, hbest⟩ := exists_ok_of_map exactPair_ends
  obtain ⟨-, hstep⟩ := hruns .noise (.explicit exactSchedule) allOnes
  obtain ⟨houtcome, -⟩ := hstep.silent (RowLog ℚ)
  have hr' : (anneal o' .noise exactSchedule allOnes (none : Option (RowLog ℚ))).outcome =
      .ok (r.scale 3) := houtcome.trans (congrArg _ hr)
  refine ⟨o', r, r.scale 3, ho', hr, hr', hbest, ?_⟩
  show r.best.scale 3 = _
  rw [hbest]
  rfl

end WeightedSat
