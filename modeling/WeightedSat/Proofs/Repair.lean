import WeightedSat.Proofs.Noise

/-!
# Every neighbour repairs a clause

A neighbour is one flip away from the assignment that it is a neighbour of. As long as a clause is
unsatisfied, the flipped variable is one of an unsatisfied clause, the clause that the move names,
and the flip satisfies it; this holds of noise and of the greedy choice alike, since it does not
matter which of its variables is flipped. Only an assignment that satisfies every clause is left at
random, by a move that names no clause.

## Main results

* `Move.Fits.diversify_iff`: the moves that name no clause
* `Move.Fits.exists_repaired`: the clause that a move names, and its flip
* `Strategy.neighbor_repairs`: what every neighbour is
-/

namespace WeightedSat

namespace Move.Fits

variable {inst : Instance} {a : Assignment} {m : Move}

/-- **A move names no clause** exactly if it is one at random, and this exactly if there is no
clause to repair. -/
theorem diversify_iff (h : m.Fits inst a) :
    ((∃ v, m = .diversify v) ↔ ∀ c ∈ inst.clauses, c.holds a = true) ∧
      (m.clause? = none ↔ ∀ c ∈ inst.clauses, c.holds a = true) := by
  have hbroken : ∀ {j : Nat} {c : Clause}, inst.clauses[j]? = some c → c.holds a = false →
      ¬ ∀ c ∈ inst.clauses, c.holds a = true := by
    intro j c hc hu hall
    rw [hall c (List.mem_of_getElem? hc)] at hu
    cases hu
  cases h with
  | diversify hv hall => exact ⟨iff_of_true ⟨_, rfl⟩ hall, iff_of_true rfl hall⟩
  | noise hc hu hl =>
    exact ⟨iff_of_false (by simp) (hbroken hc hu), iff_of_false (by simp [clause?]) (hbroken hc hu)⟩
  | greedy hc hu hv =>
    exact ⟨iff_of_false (by simp) (hbroken hc hu), iff_of_false (by simp [clause?]) (hbroken hc hu)⟩

/-- **The clause that a move names** is unsatisfied, the variable is one of its own, and the flip
satisfies it. -/
theorem exists_repaired (h : m.Fits inst a) (ha : inst.numVars ≤ a.size) {j : Nat}
    (hj : m.clause? = some j) :
    ∃ c, inst.clauses[j]? = some c ∧ c.holds a = false ∧ (∃ l ∈ c.literals, l.var = m.var) ∧
      c.holds (a.modify m.var not) = true := by
  obtain ⟨c, hc, hu, l, hl, hvar⟩ : ∃ c, inst.clauses[j]? = some c ∧ c.holds a = false ∧
      ∃ l ∈ c.literals, l.var = m.var := by
    cases h with
    | diversify hv hall => cases hj
    | noise hc hu hl =>
      obtain rfl := Option.some.inj hj
      exact ⟨_, hc, hu, _, hl, rfl⟩
    | greedy hc hu hv =>
      obtain rfl := Option.some.inj hj
      exact ⟨_, hc, hu, hv.exists_mem⟩
  have hsize : l.var < a.size :=
    Nat.lt_of_lt_of_le (inst.var_lt c (List.mem_of_getElem? hc) l hl) ha
  refine ⟨c, hc, hu, ⟨l, hl, hvar⟩, ?_⟩
  rw [← hvar]
  exact Clause.holds_flip hu hl hsize

end Move.Fits

namespace Strategy

variable {F ρ : Type} [Scalar F] [WordSource ρ] (s : Strategy F) {inst : Instance}
  {a : Assignment}

/-- **Every neighbour repairs a clause by a single flip.** On an instance with variables, whatever
the strategy and the source, a neighbour is found. It differs from the assignment in the variable of
the move and nowhere else. The move is one at random, and names no clause, exactly if the assignment
satisfies every clause; otherwise the clause that it names is unsatisfied, has the variable in one
of its literals, and is satisfied by the neighbour. -/
theorem neighbor_repairs (hn : inst.numVars ≠ 0) (ha : a.size = inst.numVars) (w : ρ) :
    ∃ p w', (s.neighbor inst a).run w = .ok p w' ∧
      p.candidate.size = inst.numVars ∧ p.move.var < inst.numVars ∧
      DiffersAt p.move.var a p.candidate ∧
      ((∃ v, p.move = .diversify v) ↔ ∀ c ∈ inst.clauses, c.isSatisfied a = .ok true) ∧
      (p.move.clause? = none ↔ ∀ c ∈ inst.clauses, c.isSatisfied a = .ok true) ∧
      ∀ j, p.move.clause? = some j → ∃ c, inst.clause j = .ok c ∧ c.isSatisfied a = .ok false ∧
        (∃ l ∈ c.literals, l.var = p.move.var) ∧ c.isSatisfied p.candidate = .ok true := by
  have hcover : inst.numVars ≤ a.size := Nat.le_of_eq ha.symm
  obtain ⟨⟨candidate, m⟩, w', hrun, hfits, hflip⟩ := s.succeeds_neighbor hn hcover w
  obtain rfl : candidate = a.modify m.var not := hflip
  have hsize : (a.modify m.var not).size = inst.numVars := by rw [Array.size_modify, ha]
  have hread : (∀ c ∈ inst.clauses, c.isSatisfied a = .ok true) ↔
      ∀ c ∈ inst.clauses, c.holds a = true := by
    refine forall₂_congr fun c hc => ?_
    rw [inst.isSatisfied_eq_ok hcover hc, Except.ok.injEq]
  refine ⟨_, w', hrun, hsize, hfits.var_lt,
    differsAt_flip (Nat.lt_of_lt_of_le hfits.var_lt hcover), ?_, ?_, fun j hj => ?_⟩
  · rw [hread]
    exact hfits.diversify_iff.1
  · rw [hread]
    exact hfits.diversify_iff.2
  · obtain ⟨c, hc, hu, hl, hrepaired⟩ := hfits.exists_repaired hcover hj
    have hmem := List.mem_of_getElem? hc
    refine ⟨c, inst.clause_eq_ok hc, ?_, hl, ?_⟩
    · rw [inst.isSatisfied_eq_ok hcover hmem, hu]
    · rw [inst.isSatisfied_eq_ok (Nat.le_of_eq hsize.symm) hmem, hrepaired]

/-- Of the tangled instance, the assignment violates the first clause and the last. Noise draws the
last one, and of that its second literal. -/
theorem neighbor_repairs_tangled :
    tangledInstance.numVars ≠ 0 ∧
      (#[true, false, false] : Assignment).size = tangledInstance.numVars ∧
      ((Strategy.noise : Strategy Float).neighbor tangledInstance #[true, false, false]).run
        (⟨[0xFFFFFFFF], [0xFFFFFFFF]⟩ : WordCycle) =
          .ok ⟨#[true, false, true], .noise 2 2⟩ ⟨[0xFFFFFFFF], []⟩ ∧
      ∃ c, tangledInstance.clause 2 = .ok c ∧ c.isSatisfied #[true, false, false] = .ok false ∧
        (∃ l ∈ c.literals, l.var = 2) ∧ c.isSatisfied #[true, false, true] = .ok true := by
  have hn : tangledInstance.numVars ≠ 0 := by decide
  have ha : (#[true, false, false] : Assignment).size = tangledInstance.numVars := rfl
  have hrun : ((Strategy.noise : Strategy Float).neighbor tangledInstance
      #[true, false, false]).run (⟨[0xFFFFFFFF], [0xFFFFFFFF]⟩ : WordCycle) =
        .ok ⟨#[true, false, true], .noise 2 2⟩ ⟨[0xFFFFFFFF], []⟩ := by
    rfl
  obtain ⟨p, w', hp, -, -, -, -, -, hrepairs⟩ := neighbor_repairs (Strategy.noise : Strategy Float)
    hn ha (⟨[0xFFFFFFFF], [0xFFFFFFFF]⟩ : WordCycle)
  obtain ⟨rfl, rfl⟩ := EStateM.Result.ok.inj (hrun.symm.trans hp)
  exact ⟨hn, ha, hrun, hrepairs 2 rfl⟩

end Strategy

end WeightedSat
