import WeightedSat.Proofs.Construction
import WeightedSat.Proofs.Unsatisfied
import WeightedSat.Proofs.Weights

/-!
# What an instance stands for

Parts are made into an instance, or there is one reason why not: the weights of the variables sum
past the largest count, or else a code names no variable, and then the first such code is told. The
instance that is made holds one weight for each variable and the codes that remain, and whatever is
measured on it later needs no check: the weights of an assignment and of its complement share out
the total weight, and the numbers of the unsatisfied clauses are as many as are counted.

## Main definitions

* `Instance.MadeOf`: the parts that an instance was made of
* `Instance.Measures`: what an assignment measures on an instance

## Main results

* `Instance.ofParts_cases`: the two errors and the instance
* `Instance.weightOf_add_complement`: the weights of an assignment and of its complement
* `Instance.measures`: assignments of the size of the instance
* `Instance.ofParts_outcome`: what becomes of any parts
-/

namespace WeightedSat

namespace Instance

/-! ## Complements -/

section Complement

variable (inst : Instance) {a : Assignment}

/-- **An assignment and its complement** share out the total weight: each variable is set by one of
them. -/
theorem weightOf_add_complement (ha : inst.numVars ≤ a.size) :
    inst.weightOf a + inst.weightOf (a.map not) = inst.totalWeight := by
  have hlen : inst.weights.length ≤ a.toList.length := by
    rwa [inst.length_weights, Array.length_toList]
  unfold weightOf totalWeight
  rw [Array.toList_map]
  generalize a.toList = bs at hlen ⊢
  generalize inst.weights = ws at hlen ⊢
  induction ws generalizing bs with
  | nil => rfl
  | cons w ws ih =>
    rcases bs with - | ⟨b, bs⟩
    · cases hlen
    · have hrest := ih bs (Nat.le_of_succ_le_succ hlen)
      rw [List.map_cons, List.zipWith_cons_cons, List.zipWith_cons_cons, total_cons, total_cons,
        total_cons, ← hrest]
      cases b
      · show 0 + total _ + (w + total _) = w + (total _ + total _)
        omega
      · show w + total _ + (0 + total _) = w + (total _ + total _)
        omega

end Complement

/-! ## Measures -/

/-- **What an assignment measures** on an instance: two weights, summed in range, that share out the
total weight, and the increasing numbers of the clauses whose literals are all false, which are as
many as are counted. -/
structure Measures (inst : Instance) (a : Assignment) : Prop where
  sum_weights : checkedSum 0 (inst.setWeights a) = .ok (inst.weightOf a)
  sum_complement : checkedSum 0 (inst.setWeights (a.map not)) = .ok (inst.weightOf (a.map not))
  add_complement : inst.weightOf a + inst.weightOf (a.map not) = inst.totalWeight
  exists_numbers : ∃ js, inst.unsatisfiedClauses a = .ok js ∧ js.Pairwise (· < ·) ∧
    (∀ j, j ∈ js ↔ ∃ c, inst.clause j = .ok c ∧ ∀ l ∈ c.literals, l.value a = .ok false) ∧
    inst.countUnsatisfied a = .ok js.length ∧ js.length ≤ inst.numClauses

/-- **Any instance** is measured so by the assignments to its variables. -/
theorem measures (inst : Instance) {a : Assignment} (ha : a.size = inst.numVars) :
    inst.Measures a where
  sum_weights := inst.checkedSum_setWeights a
  sum_complement := inst.checkedSum_setWeights (a.map not)
  add_complement := inst.weightOf_add_complement (Nat.le_of_eq ha.symm)
  exists_numbers := by
    have hcover : inst.numVars ≤ a.size := Nat.le_of_eq ha.symm
    refine ⟨inst.violated a, inst.unsatisfiedClauses_eq_ok hcover, inst.pairwise_violated a,
      fun j => inst.mem_violated_iff hcover, ?_, ?_⟩
    · rw [length_violated_eq_count]
      exact inst.countUnsatisfied_eq_ok hcover
    · rw [length_violated_eq_count]
      exact List.countP_le_length

/-! ## Parts -/

/-- **The parts of an instance**: it has one weight for each variable, the one given or else zero,
and their sum was taken in range; its clauses are the lists of codes in order, without zeros and
then without those that are empty. -/
structure MadeOf (inst : Instance) (name : String) (n : Nat) (ws : List Nat)
    (codes : List (List Int)) : Prop where
  name_eq : inst.name = name
  numVars_eq : inst.numVars = n
  length_weights_eq : inst.weights.length = n
  weight_eq : ∀ v < n, inst.weight v = .ok (ws[v]?.getD 0)
  sum_weights : checkedSum 0 inst.weights = .ok inst.totalWeight
  totalWeight_eq : inst.totalWeight = total (ws.take n)
  codes_eq : inst.clauses.map (fun c => c.literals.map Literal.code) =
    (codes.map fun zs => zs.filter (· ≠ 0)).filter (· ≠ [])
  declaredClauses_eq : inst.declaredClauses = inst.numClauses

section Parts

variable (name : String) {n : Nat} (ws : List Nat) (codes : List (List Int))

/-- **What becomes of parts**: the weights are looked at first, then the codes, and an instance is
made if both are right. -/
theorem ofParts_cases (hn : n < capacity) :
    (maxCount < total (ws.take n) ∧
        ofParts name n ws codes = .error (.error .weightOverflow)) ∨
      (total (ws.take n) ≤ maxCount ∧
        ∃ z, codes.flatten.find? (fun z => n < z.natAbs) = some z ∧
          ofParts name n ws codes = .error (.error (.literalOutOfRange z n))) ∨
      total (ws.take n) ≤ maxCount ∧
        codes.flatten.find? (fun z => n < z.natAbs) = none ∧
          ∃ inst, ofParts name n ws codes = .ok inst ∧ inst.MadeOf name n ws codes := by
  rw [← total_fitWeights_eq_take]
  rcases Nat.lt_or_ge maxCount (total (fitWeights n ws)) with hover | hfits
  · exact .inl ⟨hover, build_eq_weightOverflow name none codes hn hover⟩
  cases hfind : codes.flatten.find? fun z => n < z.natAbs with
  | some z =>
    exact .inr (.inl ⟨hfits, z, rfl,
      build_eq_literalOutOfRange name none hn hfits (clausesOf_eq_error hfind)⟩)
  | none =>
    have hrange : ∀ zs ∈ codes, ∀ z ∈ zs, z.natAbs ≤ n := fun zs hzs z hz => by
      simpa using List.find?_eq_none.mp hfind z (List.mem_flatten_of_mem hzs hz)
    obtain ⟨cs, hcs, hcodes⟩ := clausesOf_eq_ok hrange
    refine .inr (.inr ⟨hfits, rfl, _, build_eq_ok name none hn hfits hcs, ?_⟩)
    exact {
      name_eq := rfl
      numVars_eq := rfl
      length_weights_eq := length_fitWeights n ws
      weight_eq := fun v hv => by
        rw [weight, fetch, getElem?_fitWeights hv]
      sum_weights := by
        have hrange : 0 + total (fitWeights n ws) ≤ maxCount := by rwa [Nat.zero_add]
        have hsum := checkedSum_eq_ok hrange
        rwa [Nat.zero_add] at hsum
      totalWeight_eq := total_fitWeights_eq_take
      codes_eq := hcodes
      declaredClauses_eq := rfl }

theorem ofParts_eq_weightOverflow_iff (hn : n < capacity) :
    ofParts name n ws codes = .error (.error .weightOverflow) ↔ maxCount < total (ws.take n) := by
  rcases ofParts_cases name ws codes hn with
    ⟨hover, hmade⟩ | ⟨hfits, z, -, hmade⟩ | ⟨hfits, -, inst, hmade, -⟩
  · exact iff_of_true hmade hover
  · exact iff_of_false (by simp [hmade]) (Nat.not_lt.mpr hfits)
  · exact iff_of_false (by simp [hmade]) (Nat.not_lt.mpr hfits)

theorem ofParts_eq_literalOutOfRange_iff (hn : n < capacity) (z : Int) (m : Nat) :
    ofParts name n ws codes = .error (.error (.literalOutOfRange z m)) ↔
      total (ws.take n) ≤ maxCount ∧
        codes.flatten.find? (fun z => n < z.natAbs) = some z ∧ m = n := by
  rcases ofParts_cases name ws codes hn with
    ⟨hover, hmade⟩ | ⟨hfits, y, hfind, hmade⟩ | ⟨-, hfind, inst, hmade, -⟩
  · exact iff_of_false (by simp [hmade]) fun h => Nat.not_le.mpr hover h.1
  · rw [hmade, hfind]
    constructor
    · rintro h
      cases h
      exact ⟨hfits, rfl, rfl⟩
    · rintro ⟨-, hz, rfl⟩
      rw [Option.some.inj hz]
  · exact iff_of_false (by simp [hmade]) fun h => by simp [hfind] at h

theorem exists_ofParts_iff (hn : n < capacity) :
    (∃ inst, ofParts name n ws codes = .ok inst) ↔
      total (ws.take n) ≤ maxCount ∧ ∀ zs ∈ codes, ∀ z ∈ zs, z.natAbs ≤ n := by
  have hnone : codes.flatten.find? (fun z => n < z.natAbs) = none ↔
      ∀ zs ∈ codes, ∀ z ∈ zs, z.natAbs ≤ n := by
    rw [List.find?_eq_none, List.forall_mem_flatten]
    simp only [decide_eq_true_eq, Nat.not_lt]
  rw [← hnone]
  rcases ofParts_cases name ws codes hn with
    ⟨hover, hmade⟩ | ⟨-, z, hfind, hmade⟩ | ⟨hfits, hfind, inst, hmade, -⟩
  · exact iff_of_false (by simp [hmade]) fun h => Nat.not_le.mpr hover h.1
  · exact iff_of_false (by simp [hmade]) fun h => by simp [hfind] at h
  · exact iff_of_true ⟨inst, hmade⟩ ⟨hfits, hfind⟩

theorem madeOf_of_ofParts (hn : n < capacity) {inst : Instance}
    (h : ofParts name n ws codes = .ok inst) : inst.MadeOf name n ws codes := by
  rcases ofParts_cases name ws codes hn with
    ⟨-, hmade⟩ | ⟨-, z, -, hmade⟩ | ⟨-, -, inst', hmade, hparts⟩
  · cases hmade.symm.trans h
  · cases hmade.symm.trans h
  · obtain rfl := Except.ok.inj (hmade.symm.trans h)
    exact hparts

/-- **Making an instance.** The weights of the variables are an error exactly if they sum past the
largest count; only otherwise the first code, clause by clause, that names no variable is one; and
only if there is none, an instance is made. It holds the parts that it was made of, and every
assignment to its variables measures what it should. -/
theorem ofParts_outcome (hn : n < capacity) :
    (ofParts name n ws codes = .error (.error .weightOverflow) ↔
        maxCount < total (ws.take n)) ∧
      (∀ z m, ofParts name n ws codes = .error (.error (.literalOutOfRange z m)) ↔
        total (ws.take n) ≤ maxCount ∧
          codes.flatten.find? (fun z => n < z.natAbs) = some z ∧ m = n) ∧
      ((∃ inst, ofParts name n ws codes = .ok inst) ↔
        total (ws.take n) ≤ maxCount ∧ ∀ zs ∈ codes, ∀ z ∈ zs, z.natAbs ≤ n) ∧
      ∀ inst, ofParts name n ws codes = .ok inst →
        inst.MadeOf name n ws codes ∧ ∀ a : Assignment, a.size = n → inst.Measures a := by
  refine ⟨ofParts_eq_weightOverflow_iff name ws codes hn,
    ofParts_eq_literalOutOfRange_iff name ws codes hn, exists_ofParts_iff name ws codes hn,
    fun inst hmade => ?_⟩
  have hparts := madeOf_of_ofParts name ws codes hn hmade
  exact ⟨hparts, fun a ha => inst.measures (ha.trans hparts.numVars_eq.symm)⟩

end Parts

/-- Codes with zeros in them, and lists that are or become empty. -/
def sparseCodes : List (List Int) := [[0, 1, 0, -2], [0, 0], [], [-1, 3, -1]]

/-- The weights fill up the range of counts: with a weight missing, an instance is made; with one
too many, the error is in the codes; and with one more unit, it is in the weights again. -/
theorem ofParts_outcome_sparse :
    3 < capacity ∧
      (∃ inst, ofParts "sparse" 3 [maxCount - 1, 1] sparseCodes = .ok inst ∧
        inst.totalWeight = maxCount ∧
        inst.clauses.map (fun c => c.literals.map Literal.code) = [[1, -2], [-1, 3, -1]] ∧
        inst.weightOf #[true, false, true] + inst.weightOf #[false, true, false] = maxCount) ∧
      ofParts "sparse" 3 [maxCount, 0, 0, 1] (sparseCodes ++ [[3, -2147483648], [4]]) =
        .error (.error (.literalOutOfRange (-2147483648) 3)) ∧
      ofParts "sparse" 3 [maxCount, 1] (sparseCodes ++ [[3, -2147483648], [4]]) =
        .error (.error .weightOverflow) := by
  have hn : 3 < capacity := by decide
  obtain ⟨-, -, hmade, hheld⟩ := ofParts_outcome "sparse" [maxCount - 1, 1] sparseCodes hn
  obtain ⟨inst, hinst⟩ := hmade.mpr ⟨by decide, by decide⟩
  obtain ⟨hparts, hmeasures⟩ := hheld inst hinst
  have htotal : inst.totalWeight = maxCount := hparts.totalWeight_eq.trans (by decide)
  have hcomplement : #[true, false, true].map not = #[false, true, false] := by simp
  have hfind : (sparseCodes ++ [[3, -2147483648], [4]]).flatten.find? (fun z => 3 < z.natAbs) =
      some (-2147483648) := by decide
  refine ⟨hn, ⟨inst, hinst, htotal, hparts.codes_eq.trans (by decide), ?_⟩, ?_, ?_⟩
  · have hshared := (hmeasures #[true, false, true] rfl).add_complement
    rwa [hcomplement, htotal] at hshared
  · exact ((ofParts_outcome "sparse" [maxCount, 0, 0, 1] _ hn).2.1 _ _).mpr
      ⟨by decide, hfind, rfl⟩
  · exact (ofParts_outcome "sparse" [maxCount, 1] _ hn).1.mpr (by decide)

end Instance

end WeightedSat
