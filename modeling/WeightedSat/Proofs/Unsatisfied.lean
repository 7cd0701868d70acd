import WeightedSat.Proofs.Neighbor

/-!
# The clauses that an assignment leaves unsatisfied

A clause is unsatisfied if all of its literals are false. Such clauses are met in two ways: as
clauses, in the order of the instance, and as their numbers, in increasing order. Either list has
one entry for each of them, so either has as many entries as are counted.

A flip of a variable turns the literals of this variable around. All of these are false in an
unsatisfied clause, so that the flip of any of its variables satisfies it.

## Main definitions

* `Instance.broken a`: the clauses that an assignment leaves unsatisfied

## Main results

* `Instance.clause_violated`: the number of an unsatisfied clause leads to it
* `Instance.pairwise_violated`, `Instance.mem_violated_iff`, `Instance.length_violated_eq_count`:
  the numbers of the unsatisfied clauses
* `Clause.holds_flip`: a flip that repairs a clause
-/

namespace WeightedSat

/-! ## Lists of unsatisfied clauses -/

namespace Instance

variable (inst : Instance) (a : Assignment)

/-- The clauses without a true literal, in order. -/
def broken : List Clause := inst.clauses.filter fun c => !c.holds a

theorem length_broken : (inst.broken a).length = inst.numUnsatisfied a :=
  (List.countP_eq_length_filter).symm

/-- The unsatisfied clauses with their numbers. -/
def numbered : List (Clause × Nat) := inst.clauses.zipIdx.filter fun p => !p.1.holds a

theorem map_fst_numbered : (inst.numbered a).map (·.1) = inst.broken a := by
  calc (inst.numbered a).map (·.1)
    _ = (inst.clauses.zipIdx.map (·.1)).filter (fun c => !c.holds a) := by
      rw [List.filter_map]
      rfl
    _ = inst.broken a := by rw [List.zipIdx_map_fst, broken]

theorem length_violated : (inst.violated a).length = (inst.broken a).length := by
  rw [← map_fst_numbered, List.length_map]
  exact List.length_map _

/-- **The clause at a place** among the unsatisfied ones, found by its number. -/
theorem clause_violated {k : Nat} (hk : k < (inst.violated a).length)
    (hk' : k < (inst.broken a).length) :
    inst.clause (inst.violated a)[k] = .ok (inst.broken a)[k] := by
  have hlen : k < (inst.numbered a).length := by
    rwa [← map_fst_numbered, List.length_map] at hk'
  have hmem := (List.mem_filter.mp (List.getElem_mem hlen)).1
  apply inst.clause_eq_ok
  simpa [violated, ← map_fst_numbered, numbered] using List.mem_zipIdx_iff_getElem?.mp hmem

theorem getElem?_of_clause {j : Nat} {c : Clause} (h : inst.clause j = .ok c) :
    inst.clauses[j]? = some c :=
  fetch_eq_ok_iff.mp h

theorem length_violated_eq_count : (inst.violated a).length = inst.numUnsatisfied a :=
  (inst.length_violated a).trans (inst.length_broken a)

/-- **The numbers increase**, being some of the numbers of all clauses. -/
theorem pairwise_violated : (inst.violated a).Pairwise (· < ·) := by
  have hall : (inst.clauses.zipIdx.map (·.2)).Pairwise (· < ·) := by
    rw [List.zipIdx_map_snd]
    exact List.pairwise_lt_range'
  exact hall.sublist (List.filter_sublist.map _)

end Instance

/-! ## Literals and flips -/

theorem Literal.holds_flip {l : Literal} {a : Assignment} (h : l.var < a.size) :
    l.holds (a.modify l.var not) = !l.holds a := by
  unfold holds
  rw [Array.getElem?_modify, if_pos rfl, Array.getElem?_eq_getElem h, Option.map_some]
  cases a[l.var] <;> cases l.positive <;> rfl

namespace Clause

variable {c : Clause} {a : Assignment}

theorem holds_eq_false_iff : c.holds a = false ↔ ∀ l ∈ c.literals, l.holds a = false := by
  simp [holds, List.any_eq_false]

/-- **A flip repairs a clause**: whichever of its variables is flipped, a literal becomes true. -/
theorem holds_flip (hc : c.holds a = false) {l : Literal} (hl : l ∈ c.literals)
    (hv : l.var < a.size) : c.holds (a.modify l.var not) = true := by
  refine List.any_eq_true.mpr ⟨l, hl, ?_⟩
  rw [Literal.holds_flip hv, holds_eq_false_iff.mp hc l hl]
  rfl

end Clause

/-- **The numbers of the unsatisfied clauses** are those of the clauses whose literals all are
false. -/
theorem Instance.mem_violated_iff (inst : Instance) {a : Assignment} (ha : inst.numVars ≤ a.size)
    {j : Nat} :
    j ∈ inst.violated a ↔
      ∃ c, inst.clause j = .ok c ∧ ∀ l ∈ c.literals, l.value a = .ok false := by
  have hvalue : ∀ c, inst.clauses[j]? = some c → ∀ l ∈ c.literals, l.value a = .ok (l.holds a) :=
    fun c hc l hl => Literal.value_eq_ok
      (Nat.lt_of_lt_of_le (inst.var_lt c (List.mem_of_getElem? hc) l hl) ha)
  rw [inst.mem_violated]
  constructor
  · rintro ⟨c, hc, hfalse⟩
    refine ⟨c, inst.clause_eq_ok hc, fun l hl => ?_⟩
    rw [hvalue c hc l hl, Clause.holds_eq_false_iff.mp hfalse l hl]
  · rintro ⟨c, hc, hfalse⟩
    have hc := inst.getElem?_of_clause hc
    refine ⟨c, hc, Clause.holds_eq_false_iff.mpr fun l hl => ?_⟩
    exact Except.ok.inj ((hvalue c hc l hl).symm.trans (hfalse l hl))

end WeightedSat
