import WeightedSat.Neighbor
import WeightedSat.Proofs.Action

/-!
# Neighbours are single flips

Choosing a move never fails on an instance with variables and an assignment that covers them, and
the move fits the assignment: it flips any variable if every clause is satisfied, and otherwise a
variable of an unsatisfied clause, the greedy move being the first of those whose flip leaves the
fewest clauses unsatisfied.

## Main definitions

* `Instance.violated a`: the numbers of the clauses without a true literal
* `DiffersAt v a b`: two assignments of one size that differ in one variable
* `FirstLeast cost ls v`: `v` is the variable of the first literal of least cost
* `Move.Fits inst a m`: what a move chosen from `a` is

## Main results

* `Instance.unsatisfiedClauses_eq_ok`, `Instance.mem_violated`: the clauses to repair
* `differsAt_flip`: a flip differs in its variable
* `Instance.probe_eq_ok`, `Instance.greedyVar_spec`: a probe undoes its flip, and the greedy choice
  is the first least one
* `Strategy.succeeds_selectMove`, `Strategy.succeeds_neighbor`: moves fit, and a neighbour is one
  flip away
-/

namespace WeightedSat

namespace Instance

variable (inst : Instance) {a : Assignment}

theorem numUnsatisfied_le (a : Assignment) : inst.numUnsatisfied a ≤ inst.numClauses :=
  List.countP_le_length

/-! ## The clauses to repair -/

/-- The numbers of the clauses without a true literal, in increasing order. -/
def violated (a : Assignment) : List Nat :=
  (inst.clauses.zipIdx.filter fun p => !p.1.holds a).map (·.2)

theorem unsatisfiedFrom_eq_ok {cs : List Clause}
    (h : ∀ c ∈ cs, c.isSatisfied a = .ok (c.holds a)) (i : Nat) :
    unsatisfiedFrom a i cs = .ok (((cs.zipIdx i).filter fun p => !p.1.holds a).map (·.2)) := by
  induction cs generalizing i with
  | nil => rfl
  | cons c cs ih =>
    have hc := h c List.mem_cons_self
    have ih := ih (fun d hd => h d (List.mem_cons_of_mem _ hd)) (i + 1)
    cases hv : c.holds a <;> simp [unsatisfiedFrom, hc, hv, ih]

theorem unsatisfiedClauses_eq_ok (ha : inst.numVars ≤ a.size) :
    inst.unsatisfiedClauses a = .ok (inst.violated a) :=
  unsatisfiedFrom_eq_ok (fun _ hc => inst.isSatisfied_eq_ok ha hc) 0

theorem mem_violated {j : Nat} :
    j ∈ inst.violated a ↔ ∃ c, inst.clauses[j]? = some c ∧ c.holds a = false := by
  simp [violated, List.mem_zipIdx_iff_getElem?]

theorem violated_eq_nil_iff :
    inst.violated a = [] ↔ ∀ c ∈ inst.clauses, c.holds a = true := by
  simp only [violated, List.map_eq_nil_iff, List.filter_eq_nil_iff]
  constructor
  · intro h c hc
    obtain ⟨j, hj⟩ := List.mem_iff_getElem?.mp hc
    simpa using h (c, j) (List.mem_zipIdx_iff_getElem?.mpr hj)
  · rintro h ⟨c, j⟩ hp
    simp [h c (List.mem_of_getElem? (List.mem_zipIdx_iff_getElem?.mp hp))]

theorem clause_eq_ok {j : Nat} {c : Clause} (h : inst.clauses[j]? = some c) :
    inst.clause j = .ok c :=
  fetch_eq_ok_iff.mpr h

/-! ## The greedy choice -/

theorem flip_eq_ok {v : Nat} (hv : v < a.size) : flip a v = .ok (a.modify v not) := by
  rw [flip, if_pos hv]

/-- Flipping twice undoes a flip. -/
theorem modify_not_modify_not (a : Assignment) (v : Nat) : (a.modify v not).modify v not = a := by
  ext i hi hi'
  · simp
  · by_cases h : v = i <;> simp [Array.getElem_modify, h]

end Instance

/-- **Differing in one variable**: two assignments of one size have different values there, and
the same everywhere else. -/
def DiffersAt (v : Nat) (a b : Assignment) : Prop :=
  a.size = b.size ∧ ∀ u, a[u]? ≠ b[u]? ↔ u = v

/-- A flip differs in its variable. -/
theorem differsAt_flip {a : Assignment} {v : Nat} (hv : v < a.size) :
    DiffersAt v a (a.modify v not) := by
  refine ⟨Array.size_modify.symm, fun u => ?_⟩
  rw [Array.getElem?_modify]
  split
  · next huv =>
    subst huv
    simp [hv]
  · next huv => simp [Ne.symm huv]

theorem DiffersAt.ne {a b : Assignment} {v : Nat} (h : DiffersAt v a b) : b ≠ a := by
  rintro rfl
  exact (h.2 v).mpr rfl rfl

/-- **First least**: `v` is the variable of the first of the literals whose variable costs
least. -/
def FirstLeast (cost : Nat → Nat) (ls : List Literal) (v : Nat) : Prop :=
  ∃ before l after, ls = before ++ l :: after ∧ l.var = v ∧
    (∀ m ∈ before, cost v < cost m.var) ∧ ∀ m ∈ after, cost v ≤ cost m.var

namespace FirstLeast

variable {cost : Nat → Nat} {ls : List Literal} {v : Nat}

theorem singleton (l : Literal) : FirstLeast cost [l] l.var :=
  ⟨[], l, [], rfl, rfl, by simp, by simp⟩

theorem exists_mem (h : FirstLeast cost ls v) : ∃ l ∈ ls, l.var = v := by
  obtain ⟨before, l, after, rfl, hv, -, -⟩ := h
  exact ⟨l, by simp, hv⟩

theorem cost_le (h : FirstLeast cost ls v) {m : Literal} (hm : m ∈ ls) : cost v ≤ cost m.var := by
  obtain ⟨before, l, after, rfl, rfl, hbefore, hafter⟩ := h
  rcases List.mem_append.mp hm with hm | hm
  · exact Nat.le_of_lt (hbefore m hm)
  · rcases List.mem_cons.mp hm with rfl | hm
    · exact Nat.le_refl _
    · exact hafter m hm

theorem snoc_of_lt (h : FirstLeast cost ls v) {l : Literal} (hl : cost l.var < cost v) :
    FirstLeast cost (ls ++ [l]) l.var :=
  ⟨ls, l, [], rfl, rfl, fun _ hm => Nat.lt_of_lt_of_le hl (h.cost_le hm), by simp⟩

theorem snoc_of_le (h : FirstLeast cost ls v) {l : Literal} (hl : cost v ≤ cost l.var) :
    FirstLeast cost (ls ++ [l]) v := by
  obtain ⟨before, m, after, rfl, hv, hbefore, hafter⟩ := h
  refine ⟨before, m, after ++ [l], by simp, hv, hbefore, fun k hk => ?_⟩
  rcases List.mem_append.mp hk with hk | hk
  · exact hafter k hk
  · obtain rfl := List.mem_singleton.mp hk
    exact hl

end FirstLeast

namespace Instance

variable (inst : Instance) {a : Assignment}

/-- The number of clauses left unsatisfied once a variable has been flipped. -/
def flipCost (a : Assignment) (v : Nat) : Nat := inst.numUnsatisfied (a.modify v not)

/-- **A probe** tells the cost of a flip and hands the scratch back as it was. -/
theorem probe_eq_ok (ha : inst.numVars ≤ a.size) {v : Nat} (hv : v < a.size) :
    inst.probe a v = .ok (inst.flipCost a v, a) := by
  have hsize : (a.modify v not).size = a.size := Array.size_modify
  have hcount : inst.countUnsatisfied (a.modify v not) = .ok (inst.flipCost a v) :=
    inst.countUnsatisfied_eq_ok (by rwa [hsize])
  have hundone : flip (a.modify v not) v = .ok a := by
    rw [flip_eq_ok (by rwa [hsize]), modify_not_modify_not]
  simp only [probe, flip_eq_ok hv, hcount, hundone]

/-- Going through further literals keeps the first least one of all those seen, and the scratch. -/
theorem leastFlip_spec (ha : inst.numVars ≤ a.size) {seen ls : List Literal} {best : Nat}
    (hls : ∀ l ∈ ls, l.var < inst.numVars) (hbest : FirstLeast (inst.flipCost a) seen best) :
    ∃ v, inst.leastFlip a best (inst.flipCost a best) ls = .ok (v, a) ∧
      FirstLeast (inst.flipCost a) (seen ++ ls) v := by
  induction ls generalizing seen best with
  | nil => exact ⟨best, rfl, by simpa using hbest⟩
  | cons l ls ih =>
    have hl : l.var < a.size := Nat.lt_of_lt_of_le (hls l List.mem_cons_self) ha
    have hls' : ∀ m ∈ ls, m.var < inst.numVars := fun m hm => hls m (List.mem_cons_of_mem _ hm)
    simp only [leastFlip, inst.probe_eq_ok ha hl]
    -- The new literal takes over only if it costs strictly less, so the first of several stays.
    split
    · next hlt => simpa using ih hls' (hbest.snoc_of_lt hlt)
    · next hle => simpa using ih hls' (hbest.snoc_of_le (Nat.le_of_not_lt hle))

/-- **The greedy choice** of a clause is the first of its variables whose flip leaves the fewest
clauses unsatisfied, and the scratch is as it was. -/
theorem greedyVar_spec (ha : inst.numVars ≤ a.size) {c : Clause} (hc : c ∈ inst.clauses) :
    ∃ v, inst.greedyVar a c = .ok (v, a) ∧ FirstLeast (inst.flipCost a) c.literals v := by
  have hvar := inst.var_lt c hc
  have hhead := hvar _ (List.head_mem c.literals_ne_nil)
  simp only [greedyVar, inst.probe_eq_ok ha (Nat.lt_of_lt_of_le hhead ha)]
  have htail : ∀ l ∈ c.literals.tail, l.var < inst.numVars := fun l hl =>
    hvar l (List.mem_of_mem_tail hl)
  obtain ⟨v, hv, hleast⟩ := inst.leastFlip_spec ha htail (FirstLeast.singleton _)
  refine ⟨v, hv, ?_⟩
  rwa [List.singleton_append, List.cons_head_tail] at hleast

end Instance

/-! ## Moves -/

/-- **Fitting move**: what a move chosen from an assignment is. -/
inductive Move.Fits (inst : Instance) (a : Assignment) : Move → Prop
  | diversify {v : Nat} (hv : v < inst.numVars) (h : ∀ c ∈ inst.clauses, c.holds a = true) :
    Fits inst a (.diversify v)
  | noise {j : Nat} {c : Clause} {l : Literal} (hc : inst.clauses[j]? = some c)
    (hu : c.holds a = false) (hl : l ∈ c.literals) : Fits inst a (.noise j l.var)
  | greedy {j v : Nat} {c : Clause} (hc : inst.clauses[j]? = some c) (hu : c.holds a = false)
    (hv : FirstLeast (inst.flipCost a) c.literals v) : Fits inst a (.greedy j v)

namespace Move.Fits

variable {inst : Instance} {a : Assignment} {m : Move}

theorem exists_literal (h : m.Fits inst a) :
    (∀ c ∈ inst.clauses, c.holds a = true) ∨
      ∃ c ∈ inst.clauses, c.holds a = false ∧ ∃ l ∈ c.literals, l.var = m.var := by
  cases h with
  | diversify hv h => exact .inl h
  | noise hc hu hl => exact .inr ⟨_, List.mem_of_getElem? hc, hu, _, hl, rfl⟩
  | greedy hc hu hv => exact .inr ⟨_, List.mem_of_getElem? hc, hu, hv.exists_mem⟩

theorem var_lt (h : m.Fits inst a) : m.var < inst.numVars := by
  cases h with
  | diversify hv h => exact hv
  | noise hc hu hl => exact inst.var_lt _ (List.mem_of_getElem? hc) _ hl
  | greedy hc hu hv =>
    obtain ⟨l, hl, rfl⟩ := hv.exists_mem
    exact inst.var_lt _ (List.mem_of_getElem? hc) l hl

end Move.Fits

namespace Strategy

variable {F ρ : Type} [Scalar F] [WordSource ρ] (s : Strategy F) {inst : Instance}
  {a : Assignment}

theorem succeeds_noisy (w : ρ) : Succeeds s.noisy w fun _ _ => True := by
  cases s with
  | mixed p => exact (WordSource.succeeds_unit w).bind fun _ _ _ => Succeeds.pure trivial
  | noise => exact Succeeds.pure trivial
  | greedy => exact Succeeds.pure trivial

/-- **Choosing a move** never fails, the move fits, and the scratch is as it was. -/
theorem succeeds_selectMove (hn : inst.numVars ≠ 0) (ha : inst.numVars ≤ a.size) (w : ρ) :
    Succeeds (s.selectMove inst a) w fun m _ => m.1.Fits inst a ∧ m.2 = a := by
  refine (Succeeds.ofExcept (Q := fun is _ => is = inst.violated a)
    (inst.unsatisfiedClauses_eq_ok ha) rfl).bind ?_
  rintro _ w rfl
  split
  · next hempty =>
    have hall := inst.violated_eq_nil_iff.mp (List.isEmpty_iff.mp hempty)
    exact (WordSource.succeeds_below hn w).bind fun v _ hv =>
      Succeeds.pure ⟨.diversify hv hall, rfl⟩
  · next hne =>
    have hlen : (inst.violated a).length ≠ 0 := by simpa using hne
    refine (WordSource.succeeds_below hlen w).bind fun k w hk => ?_
    obtain ⟨c, hc, hu⟩ := inst.mem_violated.mp (List.getElem_mem hk)
    have hmem := List.mem_of_getElem? hc
    refine (Succeeds.ofExcept (Q := fun j _ => j = (inst.violated a)[k]) (fetch_eq_ok hk) rfl).bind
      ?_
    rintro _ w rfl
    refine (Succeeds.ofExcept (Q := fun d _ => c = d) (inst.clause_eq_ok hc) rfl).bind ?_
    rintro _ w rfl
    refine (s.succeeds_noisy w).bind fun noisy w _ => ?_
    cases noisy with
    | true =>
      have hls : c.literals.length ≠ 0 := by simpa using c.literals_ne_nil
      refine (WordSource.succeeds_below hls w).bind fun i w hi => ?_
      refine (Succeeds.ofExcept (Q := fun l _ => l ∈ c.literals) (fetch_eq_ok hi)
        (List.getElem_mem hi)).bind fun l w hl => ?_
      exact Succeeds.pure ⟨.noise hc hu hl, rfl⟩
    | false =>
      obtain ⟨v, hv, hleast⟩ := inst.greedyVar_spec ha hmem
      refine (Succeeds.ofExcept (Q := fun r _ => r = (v, a)) hv rfl).bind ?_
      rintro _ w rfl
      exact Succeeds.pure ⟨.greedy hc hu hleast, rfl⟩

/-- **A neighbour** is one flip away, by a move that fits. -/
theorem succeeds_neighbor (hn : inst.numVars ≠ 0) (ha : inst.numVars ≤ a.size) (w : ρ) :
    Succeeds (s.neighbor inst a) w fun p _ =>
      p.move.Fits inst a ∧ p.candidate = a.modify p.move.var not := by
  refine (s.succeeds_selectMove hn ha w).bind ?_
  rintro ⟨m, scratch⟩ w ⟨hm, hscratch⟩
  obtain rfl : a = scratch := hscratch.symm
  have hv : m.var < a.size := Nat.lt_of_lt_of_le hm.var_lt ha
  refine (Succeeds.ofExcept (Q := fun b _ => b = a.modify m.var not) (Instance.flip_eq_ok hv)
    rfl).bind fun b w hb => ?_
  exact Succeeds.pure ⟨hm, hb⟩

end Strategy

end WeightedSat
