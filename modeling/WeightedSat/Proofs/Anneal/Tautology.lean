import WeightedSat.Proofs.Anneal.Best
import WeightedSat.Proofs.Anneal.Twin

/-!
# Tautological clauses are inert

A clause with a variable and its negation is satisfied by every assignment that reaches the
variable. Such clauses can be inserted between the others, wherever and however many: the numbers of
the other clauses change, and the list of the unsatisfied ones does not. A search that has clauses
to look at therefore goes as it did without them, and only its rows count them among the satisfied
ones.

## Main definitions

* `Clause.Tautological`: a clause with a variable and its negation
* `Instance.Padded d inst inst'`: `d` tautological clauses have been inserted

## Main results

* `Padding.filter_eq`: the unsatisfied clauses stay as they are
* `Objective.twin_padded`: objectives with the same penalty are twins
* `anneal_padded`: searches with and without the clauses that were inserted
-/

namespace WeightedSat

variable {F ρ : Type}

/-! ## Inserting clauses -/

/-- **Tautological**: the clause contains a variable and its negation. -/
def Clause.Tautological (c : Clause) : Prop :=
  ∃ v, ⟨v, true⟩ ∈ c.literals ∧ ⟨v, false⟩ ∈ c.literals

theorem Clause.Tautological.holds {c : Clause} {a : Assignment} (hc : c.Tautological)
    (ha : ∀ l ∈ c.literals, l.var < a.size) : c.holds a = true := by
  obtain ⟨v, hpos, hneg⟩ := hc
  have hv : v < a.size := ha _ hpos
  rw [Clause.holds, List.any_eq_true]
  cases hvalue : a[v] with
  | true => exact ⟨_, hpos, by simp [Literal.holds, hv, hvalue]⟩
  | false => exact ⟨_, hneg, by simp [Literal.holds, hv, hvalue]⟩

/-- **Padding**: the second list is the first one with `d` tautological clauses inserted,
anywhere. -/
inductive Padding : Nat → List Clause → List Clause → Prop
  | nil : Padding 0 [] []
  | keep {d : Nat} {cs cs' : List Clause} (c : Clause) (h : Padding d cs cs') :
    Padding d (c :: cs) (c :: cs')
  | insert {d : Nat} {cs cs' : List Clause} {c : Clause} (hc : c.Tautological)
    (h : Padding d cs cs') : Padding (d + 1) cs (c :: cs')

namespace Padding

variable {d : Nat} {cs cs' : List Clause}

theorem length_eq (h : Padding d cs cs') : cs'.length = cs.length + d := by
  induction h with
  | nil => rfl
  | keep c _ ih =>
    rw [List.length_cons, List.length_cons, ih, Nat.add_right_comm]
  | insert _ _ ih =>
    rw [List.length_cons, ih, Nat.add_assoc]

/-- **The unsatisfied clauses stay as they are**, in the same order. -/
theorem filter_eq (h : Padding d cs cs') {a : Assignment}
    (ha : ∀ c ∈ cs', ∀ l ∈ c.literals, l.var < a.size) :
    (cs'.filter fun c => !c.holds a) = cs.filter fun c => !c.holds a := by
  induction h with
  | nil => rfl
  | keep c _ ih =>
    have hrest := ih fun e he => ha e (List.mem_cons_of_mem _ he)
    rw [List.filter_cons, List.filter_cons, hrest]
  | insert hc _ ih =>
    have hrest := ih fun e he => ha e (List.mem_cons_of_mem _ he)
    have hholds := hc.holds (ha _ List.mem_cons_self)
    rw [List.filter_cons, hholds, hrest]
    rfl

end Padding

/-- **Padded instance**: the same variables with the same weights, and `d` tautological clauses
inserted between the others. -/
structure Instance.Padded (d : Nat) (inst inst' : Instance) : Prop where
  numVars_eq : inst'.numVars = inst.numVars
  weights_eq : inst'.weights = inst.weights
  clauses : Padding d inst.clauses inst'.clauses

theorem Instance.Padded.broken_eq {d : Nat} {inst inst' : Instance} (h : inst.Padded d inst')
    {a : Assignment} (ha : a.size = inst.numVars) : inst'.broken a = inst.broken a := by
  apply h.clauses.filter_eq
  intro c hc l hl
  rw [ha, ← h.numVars_eq]
  exact inst'.var_lt c hc l hl

/-! ## Searches -/

namespace Objective

variable [Scalar F] {d : Nat}

/-- **Objectives of padded instances** with the same penalty are twins. -/
theorem twin_padded {o o' : Objective F} (h : o.inst.Padded d o'.inst)
    (hn : o.inst.numClauses ≠ 0) (hpenalty : o'.penalty = o.penalty) : Twin 1 d o o' := by
  have hideal : o'.idealWeight = o.idealWeight := by
    rw [o'.idealWeight_eq, o.idealWeight_eq, Instance.totalWeight, Instance.totalWeight,
      h.weights_eq]
  constructor
  · exact Nat.one_pos
  · exact h.numVars_eq
  · exact h.clauses.length_eq
  · intro hzero
    exact absurd hzero hn
  · intro a ha
    exact h.broken_eq ha
  · intro a
    rw [Instance.weightOf, Instance.weightOf, h.weights_eq, Nat.one_mul]
  · intro unsatisfied weight
    rw [Nat.one_mul, energyOf, energyOf, averageWeight, averageWeight, hpenalty, hideal,
      h.numVars_eq]

omit [Scalar F] in
theorem exists_withPenalty_padded {inst inst' : Instance} (h : inst.Padded d inst') {penalty : F}
    {o : Objective F} (ho : withPenalty inst penalty = .ok o) :
    ∃ o', withPenalty inst' penalty = .ok o' ∧ o.inst.Padded d o'.inst ∧
      o'.penalty = o.penalty ∧ o.inst = inst := by
  unfold withPenalty at ho ⊢
  have hweight : inst'.totalWeight = inst.totalWeight := by
    rw [Instance.totalWeight, Instance.totalWeight, h.weights_eq]
  split at ho
  · cases ho
  · next hvars =>
    split at ho
    · cases ho
    · next hpositive =>
      obtain rfl := Except.ok.inj ho
      rw [dif_neg (by rwa [h.numVars_eq]), dif_neg (by rwa [hweight])]
      exact ⟨_, rfl, h, rfl, rfl⟩

end Objective

/-- **Tautological clauses are inert.** If the instance of an objective has clauses, and
tautological ones are inserted between them, then there is an objective with the same penalty for
the instance that results. From every source, with every strategy and under every schedule, the
searches of the two are in step and report the same result; only their rows differ, since the second
search counts the inserted clauses among the satisfied ones. -/
theorem anneal_padded [Scalar F] {d : Nat} {inst inst' : Instance} (h : inst.Padded d inst')
    (hn : inst.numClauses ≠ 0) {penalty : F} {o : Objective F}
    (ho : Objective.withPenalty inst penalty = .ok o) :
    ∃ o' : Objective F, Objective.withPenalty inst' penalty = .ok o' ∧
      ∀ {ρ : Type} [WordSource ρ] (strategy : Strategy F) (schedule : Schedule F) (source : ρ),
        Objective.InStep id id (fun row => { row with satisfied := row.satisfied + d }) o o'
          strategy schedule source := by
  obtain ⟨o', ho', hpadded, hpenalty, rfl⟩ := Objective.exists_withPenalty_padded h ho
  refine ⟨o', ho', ?_⟩
  intro ρ _ strategy schedule source
  have hstep := (Objective.twin_padded hpadded hn hpenalty).inStep strategy schedule source
  rw [funext RunResult.scale_one, funext Position.scale_one,
    funext (TraceRow.retell_one d)] at hstep
  exact hstep

/-- The pair with a tautological clause before each of its clauses. -/
def paddedPair : Instance :=
  { pairInstance with
    clauses := [⟨[⟨1, false⟩, ⟨0, true⟩, ⟨1, true⟩], by decide⟩,
      pairInstance.clauses.head (by decide), ⟨[⟨0, true⟩, ⟨0, false⟩], by decide⟩,
      pairInstance.clauses.getLast (by decide)]
    var_lt := by decide }

theorem padded_pair : pairInstance.Padded 2 paddedPair where
  numVars_eq := rfl
  weights_eq := rfl
  clauses := .insert ⟨1, by decide, by decide⟩
    (.keep _ (.insert ⟨0, by decide, by decide⟩ (.keep _ .nil)))

theorem anneal_padded_pair :
    ∃ (o' : Objective Float) (r : RunResult Float) (rows : List (TraceRow Float)),
      Objective.withPenalty paddedPair 8.0 = .ok o' ∧
      (anneal pairObjective .noise pairSchedule allOnes
        (none : Option (RowLog Float))).outcome = .ok r ∧
      (anneal o' .noise pairSchedule allOnes (none : Option (RowLog Float))).outcome = .ok r ∧
      r.best.assignment = #[true, true] ∧ rows.length = 3 ∧
      (anneal pairObjective .noise pairSchedule allOnes (some ({} : RowLog Float))).sink =
        some ⟨rows.toArray⟩ ∧
      (anneal o' .noise pairSchedule allOnes (some ({} : RowLog Float))).sink =
        some ⟨(rows.map fun row => { row with satisfied := row.satisfied + 2 }).toArray⟩ := by
  have ho : Objective.withPenalty pairInstance 8.0 = .ok pairObjective := rfl
  obtain ⟨o', ho', hsteps⟩ := anneal_padded padded_pair (by decide) ho
  obtain ⟨r, hr, hend⟩ := exists_ok_of_map pair_ends
  obtain ⟨hmoves, hbest⟩ := Prod.mk.inj hend
  have hstep := hsteps .noise pairSchedule allOnes
  have hr' : (anneal o' .noise pairSchedule allOnes (none : Option (RowLog Float))).outcome =
      .ok r := (hstep.silent (RowLog Float)).1.trans (congrArg _ hr)
  obtain ⟨rows, hlength, hlog, hlog', -⟩ := hstep.rows hr
  rw [hmoves] at hlength
  exact ⟨o', r, rows, ho', hr, hr', hbest, hlength, hlog, hlog'⟩

end WeightedSat
