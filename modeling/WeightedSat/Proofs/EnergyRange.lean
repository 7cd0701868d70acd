import WeightedSat.Proofs.Energy

/-!
# The range of energies

Over exact scalars and under the default penalty, the energy of an assignment is never negative, and
it is bounded by the size of the instance: each unsatisfied clause costs the full weight, the gap in
weight costs the full weight once more, and the full weight is as many units of energy as there are
variables. The energy is zero at the best assignments only: those that satisfy every clause and set
every variable that has weight.

## Main definitions

* `idleInstance`: an instance with a variable that has no weight

## Main results

* `Standing.cost_le`, `Standing.cost_eq_zero_iff`: the largest cost, and where there is none
* `Instance.numUnsatisfied_eq_zero_iff`: where no clause is unsatisfied
* `Objective.evaluate_energy_range`: the bounds of the energy, and where it is zero
-/

namespace WeightedSat

/-! ## Costs -/

namespace Standing

variable {s : Standing} {full m : Nat}

theorem cost_le (h : s.unsatisfied ≤ m) : s.cost full ≤ (m + 1) * full :=
  calc s.cost full
    _ ≤ s.unsatisfied * full + full := Nat.add_le_add_left (Nat.sub_le full s.weight) _
    _ ≤ m * full + full := Nat.add_le_add_right (Nat.mul_le_mul_right full h) full
    _ = (m + 1) * full := (Nat.add_one_mul m full).symm

theorem cost_eq_zero_iff (hfull : 0 < full) (hs : s.weight ≤ full) :
    s.cost full = 0 ↔ s.unsatisfied = 0 ∧ s.weight = full := by
  rw [cost, Nat.add_eq_zero_iff, Nat.mul_eq_zero, or_iff_left hfull.ne', Nat.sub_eq_zero_iff_le]
  exact and_congr_right fun _ => ⟨fun h => Nat.le_antisymm hs h, fun h => h.ge⟩

end Standing

theorem Instance.numUnsatisfied_eq_zero_iff (inst : Instance) {a : Assignment}
    (ha : inst.numVars ≤ a.size) :
    inst.numUnsatisfied a = 0 ↔ ∀ c ∈ inst.clauses, c.isSatisfied a = .ok true := by
  rw [numUnsatisfied, List.countP_eq_zero]
  refine forall₂_congr fun c hc => ?_
  rw [inst.isSatisfied_eq_ok ha hc]
  simp

/-! ## Energies -/

namespace Objective

variable {K : Type} [Field K] [LinearOrder K] [FloorSemiring K] [Elementary K] {inst : Instance}
  {o : Objective K}

/-- The full weight is as many units of energy as there are variables. -/
theorem totalWeight_div_averageWeight (ho : ofInstance inst = .ok o) :
    (inst.totalWeight : K) / o.averageWeight = inst.numVars := by
  obtain ⟨hinst, -⟩ := eq_of_ofInstance ho
  have hweight : (o.inst.totalWeight : K) ≠ 0 := Nat.cast_ne_zero.mpr o.totalWeight_ne_zero
  rw [averageWeight_eq, ← hinst, div_div_cancel₀ hweight]

variable [IsStrictOrderedRing K]

theorem energyOf_nonneg (ho : ofInstance inst = .ok o) (s : Standing) :
    0 ≤ o.energyOf s.unsatisfied s.weight := by
  have hpos := o.averageWeight_pos
  rw [energyOf_eq_cost ho]
  positivity

theorem energyOf_le (ho : ofInstance inst = .ok o) {s : Standing} {m : Nat}
    (h : s.unsatisfied ≤ m) :
    o.energyOf s.unsatisfied s.weight ≤ (m + 1) * inst.numVars := by
  have hpos := o.averageWeight_pos
  have hcost : (s.cost inst.totalWeight : K) ≤ ((m + 1) * inst.totalWeight : Nat) :=
    Nat.cast_le.mpr (Standing.cost_le h)
  calc o.energyOf s.unsatisfied s.weight
    _ = (s.cost inst.totalWeight : K) / o.averageWeight := energyOf_eq_cost ho s
    _ ≤ ((m + 1) * inst.totalWeight : Nat) / o.averageWeight := by gcongr
    _ = (m + 1) * ((inst.totalWeight : K) / o.averageWeight) := by
      push_cast
      exact mul_div_assoc _ _ _
    _ = (m + 1) * inst.numVars := by rw [totalWeight_div_averageWeight ho]

theorem energyOf_eq_zero_iff (ho : ofInstance inst = .ok o) {s : Standing}
    (hs : s.weight ≤ inst.totalWeight) :
    o.energyOf s.unsatisfied s.weight = 0 ↔ s.unsatisfied = 0 ∧ s.weight = inst.totalWeight := by
  have hfull : 0 < inst.totalWeight := by
    rw [← (eq_of_ofInstance ho).1]
    exact Nat.pos_of_ne_zero o.totalWeight_ne_zero
  rw [energyOf_eq_cost ho, div_eq_zero_iff, or_iff_left o.averageWeight_pos.ne', Nat.cast_eq_zero,
    Standing.cost_eq_zero_iff hfull hs]

variable (K) in
/-- **The range of energies.** Over exact scalars, an instance with weight has a default objective,
which evaluates every assignment to the variables. The gap in weight is a true difference, since no
assignment weighs more than the ideal one; the energy lies between zero and the number of variables
for each clause and one more; and it is zero exactly if the assignment satisfies every clause and
sets every variable that has weight. -/
theorem evaluate_energy_range (hweight : 0 < inst.totalWeight) :
    ∃ o : Objective K, ofInstance inst = .ok o ∧
      ∀ a : Assignment, a.size = inst.numVars → ∃ e, o.evaluate a = .ok e ∧
        (e.weight = inst.weightOf a ∧ e.weight ≤ o.idealWeight ∧
          e.energy = (e.unsatisfied * o.penalty + ((o.idealWeight : K) - e.weight)) /
            o.averageWeight) ∧
        (0 ≤ e.energy ∧ e.energy ≤ (inst.numClauses + 1) * inst.numVars) ∧
        (e.energy = 0 ↔ (∀ c ∈ inst.clauses, c.isSatisfied a = .ok true) ∧
          ∀ v w, inst.weight v = .ok w → 0 < w → a[v]? = some true) := by
  obtain ⟨o, ho⟩ := exists_ofInstance (F := K) hweight.ne'
  obtain ⟨hinst, -⟩ := eq_of_ofInstance ho
  refine ⟨o, ho, fun a ha => ⟨o.score a, o.evaluate_eq_ok (by rw [hinst, ha]), ?_⟩⟩
  subst hinst
  have hideal : o.inst.weightOf a ≤ o.idealWeight := o.idealWeight_eq ▸ o.inst.weightOf_le a
  refine ⟨⟨rfl, hideal, ?_⟩, ⟨energyOf_nonneg ho (o.score a).toStanding, ?_⟩, ?_⟩
  · show (_ + ((o.idealWeight - o.inst.weightOf a : Nat) : K)) / _ = _
    rw [Nat.cast_sub hideal]
    rfl
  · exact energyOf_le ho (s := (o.score a).toStanding) List.countP_le_length
  · rw [← o.inst.numUnsatisfied_eq_zero_iff ha.ge, ← o.inst.weightOf_eq_totalWeight_iff ha.ge]
    exact energyOf_eq_zero_iff ho (s := (o.score a).toStanding) (o.inst.weightOf_le a)

theorem three_lt_capacity : 3 < capacity := by decide

/-- Three variables, the second without weight and forbidden by the one clause. -/
def idleInstance : Instance where
  name := "idle"
  numVars := 3
  declaredClauses := 1
  weights := [2, 0, 3]
  clauses := [⟨[⟨1, false⟩], by decide⟩]
  numVars_lt := three_lt_capacity
  length_weights := rfl
  total_weights_le := by decide
  var_lt := by decide

theorem evaluate_energy_range_idle :
    letI : Elementary ℚ := ⟨id, id⟩
    ∃ (o : Objective ℚ) (least other : Evaluation ℚ), ofInstance idleInstance = .ok o ∧
      o.evaluate #[true, false, true] = .ok least ∧ least.energy = 0 ∧
      o.evaluate #[true, true, false] = .ok other ∧ 0 < other.energy ∧ other.energy ≤ 6 := by
  let elementary : Elementary ℚ := ⟨id, id⟩
  have hweight : 0 < idleInstance.totalWeight := by decide
  obtain ⟨o, ho, hrange⟩ := evaluate_energy_range ℚ hweight
  obtain ⟨least, hleast, -, -, hzero⟩ := hrange #[true, false, true] rfl
  obtain ⟨other, hother, -, ⟨hnonneg, hle⟩, hzero'⟩ := hrange #[true, true, false] rfl
  refine ⟨o, least, other, ho, hleast, hzero.mpr ⟨?_, ?_⟩, hother, ?_, ?_⟩
  · intro c hc
    obtain rfl := List.mem_singleton.mp hc
    rfl
  · rintro (_ | _ | _ | v) w hw hpos
    · rfl
    · cases hw
      cases hpos
    · rfl
    · cases hw
  · refine lt_of_le_of_ne hnonneg fun heq => ?_
    cases (hzero'.mp heq.symm).2 2 3 rfl (by decide)
  · refine hle.trans_eq ?_
    show ((1 : Nat) + 1) * ((3 : Nat) : ℚ) = 6
    norm_num

end Objective

end WeightedSat
