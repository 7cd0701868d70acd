import Mathlib.Algebra.Order.Floor.Semiring
import Mathlib.Data.Rat.Floor
import WeightedSat.Objective
import WeightedSat.Proofs.Weights

/-!
# Energies without rounding

Over exact scalars, the numbers of an ordered field, an energy is what its formula says. Under the
default penalty it is a whole number, the cost of a standing in units of weight, divided by the
average weight of a variable; so energies compare as costs do.

One clause costs the full weight, and no gap in weight costs more. So fewer unsatisfied clauses
never cost more. They do not always cost less: the gap can be the full weight, which is what one
clause costs, and then the energies are equal.

## Main definitions

* `Elementary K`: an exponential and a logarithm, without laws
* `exactScalar`: the scalars of an ordered field
* `Standing.cost full s`: the cost of a standing under the default penalty

## Main results

* `Objective.energyOf_eq_cost`: the energy is the cost over the average weight
* `Standing.cost_le_of_lt`, `Standing.cost_eq_iff_of_lt`: what fewer unsatisfied clauses cost
* `Objective.evaluate_energy_le`: fewer unsatisfied clauses have no higher energy, and the one tie
* `Objective.energy_ties`: the tie occurs
-/

namespace WeightedSat

/-! ## Exact scalars -/

/-- **Elementary functions**: an exponential and a logarithm. No laws are part of the class. -/
class Elementary (K : Type) where
  exp : K → K
  ln : K → K

/-- **Exact scalars**: in an ordered field nothing is rounded, and every scalar is finite. -/
instance (priority := low) exactScalar {K : Type} [Field K] [LinearOrder K] [FloorSemiring K]
    [Elementary K] : Scalar K where
  ofCount n := n
  exp := Elementary.exp
  ln := Elementary.ln
  lt x y := decide (x < y)
  le x y := decide (x ≤ y)
  isFinite _ := true
  ceilCount x := min ⌈x⌉₊ maxCount

/-! ## Costs -/

namespace Standing

variable {s t : Standing} {full : Nat}

/-- **Cost**: the full weight for each unsatisfied clause, and the gap to the full weight. -/
def cost (full : Nat) (s : Standing) : Nat := s.unsatisfied * full + (full - s.weight)

/-- One clause costs as much as any gap in weight. -/
theorem cost_le_of_lt (full : Nat) (h : s.unsatisfied < t.unsatisfied) :
    s.cost full ≤ t.cost full :=
  calc s.cost full
    _ ≤ (s.unsatisfied + 1) * full := by
      rw [cost, Nat.add_one_mul]
      omega
    _ ≤ t.unsatisfied * full := Nat.mul_le_mul_right full h
    _ ≤ t.cost full := Nat.le_add_right _ _

/-- **The only tie** is one clause against the full weight. -/
theorem cost_eq_iff_of_lt (hfull : 0 < full) (hs : s.weight ≤ full) (ht : t.weight ≤ full)
    (h : s.unsatisfied < t.unsatisfied) :
    s.cost full = t.cost full ↔
      t.unsatisfied = s.unsatisfied + 1 ∧ s.weight = 0 ∧ t.weight = full := by
  unfold cost
  constructor
  · intro heq
    -- Two clauses cost the full weight twice, and no gap makes up for that.
    have hone : t.unsatisfied = s.unsatisfied + 1 := by
      by_contra hne
      have htwo := Nat.mul_le_mul_right full (show s.unsatisfied + 2 ≤ t.unsatisfied by omega)
      rw [Nat.add_mul] at htwo
      omega
    rw [hone, Nat.add_one_mul] at heq
    exact ⟨hone, by omega, by omega⟩
  · rintro ⟨hone, hs, ht⟩
    rw [hone, hs, ht, Nat.add_one_mul]
    omega

end Standing

/-! ## Energies -/

namespace Objective

/-- An instance with weight has a default objective. -/
theorem exists_ofInstance {F : Type} [Scalar F] {inst : Instance}
    (hweight : inst.totalWeight ≠ 0) : ∃ o : Objective F, ofInstance inst = .ok o := by
  have hvars := Instance.numVars_ne_zero_of_totalWeight hweight
  unfold ofInstance withPenalty
  rw [dif_neg hvars, dif_neg hweight]
  exact ⟨_, rfl⟩

variable {K : Type} [Field K] [LinearOrder K] [FloorSemiring K] [Elementary K]

theorem averageWeight_eq (o : Objective K) :
    o.averageWeight = (o.inst.totalWeight : K) / (o.inst.numVars : K) := by
  rw [← o.idealWeight_eq]
  rfl

/-- **The energy is the cost**, in units of the average weight. -/
theorem energyOf_eq_cost {inst : Instance} {o : Objective K} (h : ofInstance inst = .ok o)
    (s : Standing) :
    o.energyOf s.unsatisfied s.weight = (s.cost inst.totalWeight : K) / o.averageWeight := by
  obtain ⟨hinst, hpenalty⟩ := eq_of_ofInstance h
  have hideal : o.idealWeight = inst.totalWeight := by rw [o.idealWeight_eq, hinst]
  calc o.energyOf s.unsatisfied s.weight
    _ = ((s.unsatisfied : K) * o.penalty + ((o.idealWeight - s.weight : Nat) : K)) /
        o.averageWeight := rfl
    _ = ((s.unsatisfied : K) * (inst.totalWeight : K) +
        ((inst.totalWeight - s.weight : Nat) : K)) / o.averageWeight := by
      rw [hpenalty, hideal]
      rfl
    _ = (s.cost inst.totalWeight : K) / o.averageWeight := by
      simp [Standing.cost]

theorem score_energy {inst : Instance} {o : Objective K} (h : ofInstance inst = .ok o)
    (a : Assignment) :
    (o.score a).energy = ((o.score a).toStanding.cost inst.totalWeight : K) / o.averageWeight :=
  energyOf_eq_cost h (o.score a).toStanding

variable [IsStrictOrderedRing K]

theorem averageWeight_pos (o : Objective K) : 0 < o.averageWeight := by
  have hweight := Nat.pos_of_ne_zero o.totalWeight_ne_zero
  have hvars := Nat.pos_of_ne_zero o.numVars_ne_zero
  rw [averageWeight_eq]
  positivity

/-- **Fewer unsatisfied clauses have no higher energy.** The energies tie exactly if there is one
clause between them, against the full weight. -/
theorem evaluate_energy_le {inst : Instance} {o : Objective K} (ho : ofInstance inst = .ok o)
    {a b : Assignment} (ha : a.size = inst.numVars) (hb : b.size = inst.numVars) :
    ∃ ea eb, o.evaluate a = .ok ea ∧ o.evaluate b = .ok eb ∧
      (ea.unsatisfied < eb.unsatisfied → ea.energy ≤ eb.energy ∧
        (ea.energy = eb.energy ↔ eb.unsatisfied = ea.unsatisfied + 1 ∧ ea.weight = 0 ∧
          eb.weight = inst.totalWeight)) := by
  obtain ⟨hinst, -⟩ := eq_of_ofInstance ho
  have hpos := o.averageWeight_pos
  have hfull : 0 < inst.totalWeight := by
    rw [← hinst]
    exact Nat.pos_of_ne_zero o.totalWeight_ne_zero
  refine ⟨o.score a, o.score b, o.evaluate_eq_ok (by rw [hinst, ha]),
    o.evaluate_eq_ok (by rw [hinst, hb]), fun h => ?_⟩
  rw [score_energy ho, score_energy ho]
  constructor
  · have hcost := Standing.cost_le_of_lt inst.totalWeight h
    gcongr
  · rw [div_left_inj' hpos.ne', Nat.cast_inj]
    apply Standing.cost_eq_iff_of_lt hfull _ _ h
    · rw [← hinst]
      exact o.inst.weightOf_le a
    · rw [← hinst]
      exact o.inst.weightOf_le b

/-- One variable of weight one, and a clause that forbids it. -/
def forbiddenInstance : Instance where
  name := "forbidden"
  numVars := 1
  declaredClauses := 1
  weights := [1]
  clauses := [⟨[⟨0, false⟩], by decide⟩]
  numVars_lt := by decide
  length_weights := rfl
  total_weights_le := by decide
  var_lt := by decide

omit [IsStrictOrderedRing K] in
theorem score_forbidden {o : Objective K} (h : ofInstance forbiddenInstance = .ok o) :
    o.evaluate #[false] = .ok (o.score #[false]) ∧ o.evaluate #[true] = .ok (o.score #[true]) ∧
      (o.score #[false]).toStanding = ⟨0, 0⟩ ∧ (o.score #[true]).toStanding = ⟨1, 1⟩ := by
  obtain ⟨hinst, -⟩ := eq_of_ofInstance h
  have hvars : o.inst.numVars = 1 := by
    rw [hinst]
    rfl
  refine ⟨o.evaluate_eq_ok (by simp [hvars]), o.evaluate_eq_ok (by simp [hvars]), ?_, ?_⟩
  · simp only [score, hinst]
    decide
  · simp only [score, hinst]
    decide

theorem evaluate_energy_le_forbidden :
    letI : Elementary ℚ := ⟨id, id⟩
    ∃ (o : Objective ℚ) (ea eb : Evaluation ℚ), ofInstance forbiddenInstance = .ok o ∧
      o.evaluate #[false] = .ok ea ∧ o.evaluate #[true] = .ok eb ∧
      ea.unsatisfied < eb.unsatisfied ∧ ea.energy = eb.energy := by
  let elementary : Elementary ℚ := ⟨id, id⟩
  obtain ⟨o, ho⟩ : ∃ o : Objective ℚ, ofInstance forbiddenInstance = .ok o := ⟨_, rfl⟩
  obtain ⟨hscore, hscore', hs, ht⟩ := score_forbidden ho
  obtain ⟨ea, eb, hea, heb, hle⟩ :=
    evaluate_energy_le ho (a := #[false]) (b := #[true]) rfl rfl
  obtain rfl := Except.ok.inj (hea.symm.trans hscore)
  obtain rfl := Except.ok.inj (heb.symm.trans hscore')
  have hfewer : (o.score #[false]).unsatisfied < (o.score #[true]).unsatisfied := by
    rw [hs, ht]
    decide
  refine ⟨o, _, _, ho, hea, heb, hfewer, (hle hfewer).2.mpr ?_⟩
  rw [hs, ht]
  exact ⟨rfl, rfl, rfl⟩

/-- **Fewer unsatisfied clauses can have the same energy**: the assignment that leaves the variable
unset satisfies the clause and lacks the full weight, and the other one the reverse. -/
theorem energy_ties :
    ¬ ∀ (_ : Elementary ℚ) (inst : Instance) (o : Objective ℚ), ofInstance inst = .ok o →
      ∀ a b : Assignment, a.size = inst.numVars → b.size = inst.numVars →
      ∀ ea eb, o.evaluate a = .ok ea → o.evaluate b = .ok eb →
        ea.unsatisfied < eb.unsatisfied → ea.energy < eb.energy := by
  intro h
  let elementary : Elementary ℚ := ⟨id, id⟩
  obtain ⟨o, ho⟩ : ∃ o : Objective ℚ, ofInstance forbiddenInstance = .ok o := ⟨_, rfl⟩
  obtain ⟨hscore, hscore', hs, ht⟩ := score_forbidden ho
  have hlt := h elementary forbiddenInstance o ho #[false] #[true] rfl rfl _ _ hscore hscore'
    (by rw [hs, ht]; decide)
  rw [score_energy ho, score_energy ho, hs, ht] at hlt
  exact lt_irrefl _ hlt

end Objective

end WeightedSat
