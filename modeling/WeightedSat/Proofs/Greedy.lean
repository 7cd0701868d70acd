import WeightedSat.Proofs.Noise

/-!
# The greedy choice is the first best one

The greedy choice tries the flip of every literal of the drawn clause on the assignment itself, and
undoes each before the next, so a literal that the clause repeats is tried again on the same
assignment. What it hands back is therefore the assignment it was given, and the flip that follows
is the only one that shows in the neighbour. The choice changes hands only when fewer clauses are
left, so that the first of several best literals keeps it.

## Main definitions

* `Instance.BestAt`: a position of a clause whose flip leaves the fewest clauses, the first of
  several

## Main results

* `FirstLeast.exists_position`, `FirstLeast.unique`: the first least literal by its position, of
  which there is one
* `Strategy.neighbor_greedy`: the greedy neighbour is the best one, and one flip away
-/

namespace WeightedSat

theorem FirstLeast.exists_position {cost : Nat → Nat} {ls : List Literal} {v : Nat}
    (h : FirstLeast cost ls v) :
    ∃ i l, ls[i]? = some l ∧ l.var = v ∧
      ∀ (k : Nat) (m : Literal), ls[k]? = some m →
        cost v ≤ cost m.var ∧ (k < i → cost v < cost m.var) := by
  obtain ⟨before, l, after, hls, hv, hbefore, -⟩ := id h
  refine ⟨before.length, l, by simp [hls], hv, fun k m hm => ⟨?_, fun hk => ?_⟩⟩
  · exact h.cost_le (List.mem_of_getElem? hm)
  · rw [hls, List.getElem?_append_left hk] at hm
    exact hbefore m (List.mem_of_getElem? hm)

/-- There is only one first least variable. -/
theorem FirstLeast.unique {cost : Nat → Nat} {ls : List Literal} {v u : Nat}
    (hv : FirstLeast cost ls v) (hu : FirstLeast cost ls u) : v = u := by
  obtain ⟨i, l, hi, rfl, hl⟩ := hv.exists_position
  obtain ⟨j, m, hj, rfl, hm⟩ := hu.exists_position
  rcases Nat.lt_trichotomy i j with hij | rfl | hji
  · exact absurd ((hm i l hi).2 hij) (Nat.not_lt.mpr (hl j m hj).1)
  · rw [Option.some.inj (hi.symm.trans hj)]
  · exact absurd ((hl j m hj).2 hji) (Nat.not_lt.mpr (hm i l hi).1)

namespace Instance

variable (inst : Instance) {a : Assignment}

/-- **Best position**: the literal there leaves `n` clauses unsatisfied once its variable is
flipped, no literal of the clause leaves fewer, and the earlier ones leave more. -/
def BestAt (a : Assignment) (c : Clause) (i n : Nat) : Prop :=
  ∀ (k : Nat) (l : Literal), c.literals[k]? = some l →
    ∃ b m, flip a l.var = .ok b ∧ inst.countUnsatisfied b = .ok m ∧
      n ≤ m ∧ (k < i → n < m) ∧ (k = i → n = m)

/-- The first least literal of a clause is at the best position. -/
theorem exists_bestAt (ha : inst.numVars ≤ a.size) {c : Clause} (hc : c ∈ inst.clauses) {v : Nat}
    (h : FirstLeast (inst.flipCost a) c.literals v) :
    ∃ i l, c.literals[i]? = some l ∧ l.var = v ∧ inst.BestAt a c i (inst.flipCost a v) := by
  obtain ⟨i, l, hi, rfl, hcost⟩ := h.exists_position
  refine ⟨i, l, hi, rfl, fun k m hk => ?_⟩
  have hv : m.var < inst.numVars := inst.var_lt c hc m (List.mem_of_getElem? hk)
  have hsize : inst.numVars ≤ (a.modify m.var not).size := by simpa using ha
  refine ⟨_, _, flip_eq_ok (Nat.lt_of_lt_of_le hv ha), inst.countUnsatisfied_eq_ok hsize,
    (hcost k m hk).1, (hcost k m hk).2, ?_⟩
  rintro rfl
  obtain rfl := Option.some.inj (hi.symm.trans hk)
  rfl

theorem numVars_ne_zero_of_mem {c : Clause} (hc : c ∈ inst.clauses) : inst.numVars ≠ 0 := by
  have hhead := inst.var_lt c hc _ (List.head_mem c.literals_ne_nil)
  omega

end Instance

namespace Strategy

variable {F ρ : Type} [Scalar F] [WordSource ρ] (s : Strategy F) {inst : Instance}
  {a : Assignment}

/-- **The greedy choice is the first best one.** From an assignment that leaves a clause
unsatisfied, a neighbour is always found, the choice of the move leaves the assignment as it was,
and the move repairs a clause. If it is the greedy one then its variable is that of the first of the
literals whose flip leaves the fewest clauses unsatisfied; as many are left by the neighbour, which
differs from the assignment in this variable only. -/
theorem neighbor_greedy (ha : a.size = inst.numVars)
    (hu : ∃ c ∈ inst.clauses, c.isSatisfied a = .ok false) (w : ρ) :
    ∃ p w', (s.neighbor inst a).run w = .ok p w' ∧
      (s.selectMove inst a).run w = .ok (p.move, a) w' ∧ (∃ j, p.move.clause? = some j) ∧
      ∀ j v, p.move = .greedy j v → ∃ c,
        inst.clause j = .ok c ∧ c.isSatisfied a = .ok false ∧ inst.greedyVar a c = .ok (v, a) ∧
        (∃ i l fewest, c.literals[i]? = some l ∧ l.var = v ∧
          inst.countUnsatisfied p.candidate = .ok fewest ∧ inst.BestAt a c i fewest) ∧
        DiffersAt v a p.candidate := by
  have hcover : inst.numVars ≤ a.size := Nat.le_of_eq ha.symm
  obtain ⟨d, hd, hdu⟩ := hu
  rw [inst.isSatisfied_eq_ok hcover hd] at hdu
  obtain ⟨⟨m, scratch⟩, w', hselect, hfits, hscratch⟩ :=
    s.succeeds_selectMove (inst.numVars_ne_zero_of_mem hd) hcover w
  obtain rfl : a = scratch := hscratch.symm
  have hv : m.var < a.size := Nat.lt_of_lt_of_le hfits.var_lt hcover
  have hneighbor : (s.neighbor inst a).run w = .ok ⟨a.modify m.var not, m⟩ w' := by
    rw [neighbor, run_bind_of_ok hselect, run_bind_of_ok (run_ofExcept (Instance.flip_eq_ok hv))]
    rfl
  refine ⟨_, w', hneighbor, hselect, ?_, ?_⟩
  · cases hfits with
    | diversify hv hall => simp [hall d hd] at hdu
    | noise hc hcu hl => exact ⟨_, rfl⟩
    | greedy hc hcu hleast => exact ⟨_, rfl⟩
  · rintro j v rfl
    cases hfits with
    | greedy hc hcu hleast =>
      rename_i c
      have hmem := List.mem_of_getElem? hc
      have hsize : inst.numVars ≤ (a.modify v not).size := by simpa using hcover
      obtain ⟨i, l, hi, hl, hbest⟩ := inst.exists_bestAt hcover hmem hleast
      obtain ⟨u, hgreedy, hu⟩ := inst.greedyVar_spec hcover hmem
      refine ⟨c, inst.clause_eq_ok hc, ?_, ?_,
        ⟨i, l, _, hi, hl, inst.countUnsatisfied_eq_ok hsize, hbest⟩, differsAt_flip hv⟩
      · rw [inst.isSatisfied_eq_ok hcover hmem, hcu]
      · rwa [hleast.unique hu]

/-- Of the tangled instance, the assignment violates the first clause, which repeats a literal, and
the last. The flips of both variables of the first leave one clause, and the first one is taken. -/
theorem neighbor_greedy_tangled :
    (∃ c ∈ tangledInstance.clauses, c.isSatisfied #[true, false, false] = .ok false) ∧
      ((Strategy.greedy : Strategy Float).neighbor tangledInstance #[true, false, false]).run
        (⟨[0], [0]⟩ : WordCycle) = .ok ⟨#[false, false, false], .greedy 0 0⟩ ⟨[0], []⟩ ∧
      ∃ c i l, tangledInstance.clause 0 = .ok c ∧ c.literals[i]? = some l ∧ l.var = 0 ∧
        tangledInstance.BestAt #[true, false, false] c i 1 ∧
        DiffersAt 0 #[true, false, false] #[false, false, false] := by
  have hu : ∃ c ∈ tangledInstance.clauses, c.isSatisfied #[true, false, false] = .ok false := by
    decide
  have hrun : ((Strategy.greedy : Strategy Float).neighbor tangledInstance
      #[true, false, false]).run (⟨[0], [0]⟩ : WordCycle) =
        .ok ⟨#[false, false, false], .greedy 0 0⟩ ⟨[0], []⟩ := by
    rfl
  have hcount : tangledInstance.countUnsatisfied #[false, false, false] = .ok 1 := by
    decide
  refine ⟨hu, hrun, ?_⟩
  have hsize : (#[true, false, false] : Assignment).size = tangledInstance.numVars := rfl
  obtain ⟨p, w', hp, -, -, hgreedy⟩ := neighbor_greedy (Strategy.greedy : Strategy Float) hsize hu
    (⟨[0], [0]⟩ : WordCycle)
  obtain ⟨rfl, rfl⟩ := EStateM.Result.ok.inj (hrun.symm.trans hp)
  obtain ⟨c, hc, -, -, ⟨i, l, fewest, hi, hl, hfewest, hbest⟩, hdiffers⟩ := hgreedy 0 0 rfl
  obtain rfl := Except.ok.inj (hcount.symm.trans hfewest)
  exact ⟨c, i, l, hc, hi, hl, hbest, hdiffers⟩

end Strategy

end WeightedSat
