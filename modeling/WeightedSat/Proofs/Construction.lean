import WeightedSat.Instance

/-!
# Making instances

An instance is made if the codes name its variables and the weights fit, and it holds what it was
made of: the weights with zeros for those that are missing, and the codes of each clause in order,
without zeros and without the clauses that have no other codes.

## Main results

* `fitWeights_eq_append`, `getElem?_fitWeights`, `total_fitWeights_eq_take`: the weights of an
  instance
* `clausesOf_eq_ok`, `clausesOf_eq_error`: the clauses of an instance, or the first code that names
  no variable
* `build_eq_ok`, `build_eq_weightOverflow`, `build_eq_literalOutOfRange`: the instance itself, or
  why there is none
-/

namespace WeightedSat

theorem Literal.natAbs_code (l : Literal) : l.code.natAbs = l.var + 1 := by
  unfold code
  split
  · exact Int.natAbs_natCast _
  · exact (Int.natAbs_neg _).trans (Int.natAbs_natCast _)

namespace Instance

/-! ## Weights -/

section Weights

variable {n : Nat} {ws : List Nat}

theorem fitWeights_eq_append (h : ws.length ≤ n) :
    fitWeights n ws = ws ++ List.replicate (n - ws.length) 0 := by
  rw [fitWeights, List.take_of_length_le h]

@[simp]
theorem fitWeights_fitWeights : fitWeights n (fitWeights n ws) = fitWeights n ws := by
  rw [fitWeights_eq_append (by simp), length_fitWeights, Nat.sub_self, List.replicate_zero,
    List.append_nil]

theorem total_replicate_zero (k : Nat) : total (List.replicate k 0) = 0 := by
  induction k with
  | zero => rfl
  | succ k ih => rw [List.replicate_succ, total_cons, ih]

/-- Zeros weigh nothing. -/
theorem total_fitWeights_eq_take : total (fitWeights n ws) = total (ws.take n) := by
  rw [fitWeights, total_append, total_replicate_zero, Nat.add_zero]

theorem total_fitWeights (h : ws.length ≤ n) : total (fitWeights n ws) = total ws := by
  rw [total_fitWeights_eq_take, List.take_of_length_le h]

/-- The weight of a variable is the one at its place, or zero if there is none. -/
theorem getElem?_fitWeights {v : Nat} (hv : v < n) :
    (fitWeights n ws)[v]? = some (ws[v]?.getD 0) := by
  rcases Nat.lt_or_ge v ws.length with hlt | hge
  · have htake : v < (ws.take n).length := by
      rw [List.length_take]
      exact Nat.lt_min.mpr ⟨hv, hlt⟩
    rw [fitWeights, List.getElem?_append_left htake, List.getElem?_take_of_lt hv,
      List.getElem?_eq_getElem hlt, Option.getD_some]
  · rw [fitWeights_eq_append (Nat.le_of_lt (Nat.lt_of_le_of_lt hge hv)),
      List.getElem?_append_right hge, List.getElem?_eq_none hge, Option.getD_none,
      List.getElem?_replicate, if_pos (by omega)]

end Weights

/-! ## Clauses -/

section Clauses

variable {n : Nat}

/-- **The literals of codes** that name variables: one for each code but zero. -/
theorem literalsOf_eq_ok {zs : List Int} (h : ∀ z ∈ zs, z.natAbs ≤ n) :
    ∃ ls, literalsOf n zs = .ok ls ∧ ls.map Literal.code = zs.filter (· ≠ 0) := by
  induction zs with
  | nil => exact ⟨[], rfl, rfl⟩
  | cons z zs ih =>
    obtain ⟨ls, hls, hcodes⟩ := ih fun y hy => h y (List.mem_cons_of_mem _ hy)
    by_cases hz : z = 0
    · subst hz
      exact ⟨ls, hls, by simpa using hcodes⟩
    · obtain ⟨l, hl⟩ : ∃ l, Literal.ofCode? z = some l := by simp [Literal.ofCode?, hz]
      have hcode := Literal.code_of_ofCode? hl
      have hvar : l.var < n := by
        have hle := h z List.mem_cons_self
        rw [← hcode, Literal.natAbs_code] at hle
        exact hle
      refine ⟨l :: ls, ?_, by simp [hcode, hz, hcodes]⟩
      simp only [literalsOf, hl, if_pos hvar, hls]

/-- The first code that names no variable ends the list. -/
theorem literalsOf_eq_error {zs : List Int} {bad : Int}
    (h : zs.find? (fun z => n < z.natAbs) = some bad) : literalsOf n zs = .error bad := by
  induction zs with
  | nil => cases h
  | cons z zs ih =>
    rw [List.find?_cons] at h
    cases hz : Literal.ofCode? z with
    | none =>
      have hzero : z = 0 := by simpa [Literal.ofCode?] using hz
      subst hzero
      simp only [literalsOf, hz]
      exact ih h
    | some l =>
      have habs : z.natAbs = l.var + 1 := by rw [← Literal.code_of_ofCode? hz, l.natAbs_code]
      split at h
      · next hbad =>
        obtain rfl := Option.some.inj h
        have hvar : ¬ l.var < n := by
          rw [decide_eq_true_eq, habs] at hbad
          omega
        simp only [literalsOf, hz, if_neg hvar]
      · next hgood =>
        have hvar : l.var < n := by
          rw [decide_eq_false_iff_not, habs] at hgood
          omega
        simp only [literalsOf, hz, if_pos hvar, ih h]

/-- **The clauses of codes** that name variables: zeros are left out, and then what is empty. -/
theorem clausesOf_eq_ok {raw : List (List Int)} (h : ∀ zs ∈ raw, ∀ z ∈ zs, z.natAbs ≤ n) :
    ∃ cs, clausesOf n raw = .ok cs ∧
      cs.map (fun c => c.literals.map Literal.code) =
        (raw.map fun zs => zs.filter (· ≠ 0)).filter (· ≠ []) := by
  induction raw with
  | nil => exact ⟨[], rfl, rfl⟩
  | cons zs raw ih =>
    obtain ⟨cs, hcs, hrest⟩ := ih fun ys hys => h ys (List.mem_cons_of_mem _ hys)
    obtain ⟨ls, hls, hcodes⟩ := literalsOf_eq_ok (h zs List.mem_cons_self)
    refine ⟨(Clause.ofLiterals? ls).toList ++ cs, by simp only [clausesOf, hls, hcs], ?_⟩
    rw [List.map_append, hrest, List.map_cons, List.filter_cons, ← hcodes]
    by_cases hnil : ls = []
    · simp [Clause.ofLiterals?, hnil]
    · simp [Clause.ofLiterals?, hnil]

/-- The first code that names no variable, clause by clause, ends the lists. -/
theorem clausesOf_eq_error {raw : List (List Int)} {bad : Int}
    (h : raw.flatten.find? (fun z => n < z.natAbs) = some bad) : clausesOf n raw = .error bad := by
  induction raw with
  | nil => cases h
  | cons zs raw ih =>
    rw [List.flatten_cons, List.find?_append] at h
    cases hzs : zs.find? (fun z => n < z.natAbs) with
    | some z =>
      rw [hzs, Option.some_or] at h
      obtain rfl := Option.some.inj h
      simp only [clausesOf, literalsOf_eq_error hzs]
    | none =>
      rw [hzs, Option.none_or] at h
      have hrange : ∀ z ∈ zs, z.natAbs ≤ n := fun z hz => by
        simpa using List.find?_eq_none.mp hzs z hz
      obtain ⟨ls, hls, -⟩ := literalsOf_eq_ok hrange
      simp only [clausesOf, hls, ih h]

end Clauses

/-! ## Instances -/

/-- Weights may be filled with zeros before. -/
theorem build_fitWeights (name : String) (n : Nat) (declared : Option Nat) (ws : List Nat)
    (raw : List (List Int)) :
    build name n declared (fitWeights n ws) raw = build name n declared ws raw := by
  simp only [build, fitWeights_fitWeights]

/-- **The instance that is made** if its size, its weights and its codes are right. -/
theorem build_eq_ok (name : String) {n : Nat} (declared : Option Nat) {ws : List Nat}
    {raw : List (List Int)} {cs : List Clause} (hn : n < capacity)
    (hws : total (fitWeights n ws) ≤ maxCount) (hcs : clausesOf n raw = .ok cs) :
    build name n declared ws raw = .ok {
      name, numVars := n, clauses := cs
      declaredClauses := declared.getD cs.length
      weights := fitWeights n ws
      numVars_lt := hn
      length_weights := length_fitWeights n ws
      total_weights_le := hws
      var_lt := var_lt_of_clausesOf hcs } := by
  rw [build, dif_pos hn, dif_pos hws]
  split
  · next code hc => cases hc.symm.trans hcs
  · next cs' hc =>
    obtain rfl := Except.ok.inj (hc.symm.trans hcs)
    rfl

theorem build_eq_weightOverflow (name : String) {n : Nat} (declared : Option Nat) {ws : List Nat}
    (raw : List (List Int)) (hn : n < capacity) (hws : maxCount < total (fitWeights n ws)) :
    build name n declared ws raw = .error (.error .weightOverflow) := by
  rw [build, dif_pos hn, dif_neg (Nat.not_le.mpr hws)]

theorem build_eq_literalOutOfRange (name : String) {n : Nat} (declared : Option Nat)
    {ws : List Nat} {raw : List (List Int)} {bad : Int} (hn : n < capacity)
    (hws : total (fitWeights n ws) ≤ maxCount) (hcs : clausesOf n raw = .error bad) :
    build name n declared ws raw = .error (.error (.literalOutOfRange bad n)) := by
  rw [build, dif_pos hn, dif_pos hws]
  split
  · next code hc =>
    obtain rfl := Except.error.inj (hc.symm.trans hcs)
    rfl
  · next cs hc => cases hc.symm.trans hcs

end Instance

end WeightedSat
