import Mathlib.InformationTheory.Hamming
import WeightedSat.Proofs.Unsatisfied
import WeightedSat.Random.WordCycle

/-!
# Noise can reach every solution

A clause that an assignment leaves unsatisfied has only false literals, and a solution makes one of
them true: the two differ in its variable. So a noise move can always come one variable closer to a
given solution, whichever unsatisfied clause was drawn, and a chain of such moves ends at a solution
after at most as many moves as there are variables.

That a draw can yield a number means that some source yields it and leaves any given source behind;
the draws of a chain can then be chosen one after another. The words of a word cycle can be chosen
like this.

## Main definitions

* `distance n a b`: the number of variables in which two assignments differ
* `Yields x v`: the action `x` can yield `v`, whatever source it leaves
* `Strategy.chain`: several neighbours, one after another
* `Instance.Drawable`: the draws of noise moves can yield every number below their bounds

## Main results

* `Clause.exists_closer`: an unsatisfied clause has a literal that a solution makes true
* `Strategy.run_neighbor_noise`: a noise move, given its draws
* `Strategy.exists_noise_chain`: some literal of every clause comes closer, so that some chain
  reaches a solution
* `WordSource.yields_below`: a word cycle can yield every number below a bound
-/

namespace WeightedSat

/-! ## Distances -/

/-- **Distance**: the number of the first `n` variables in which two assignments differ. -/
def distance (n : Nat) (a b : Assignment) : Nat :=
  hammingDist (fun v : Fin n => a[v.val]?) fun v => b[v.val]?

theorem distance_le (n : Nat) (a b : Assignment) : distance n a b ≤ n := by
  simpa [distance] using hammingDist_le_card_fintype
    (x := fun v : Fin n => a[v.val]?) (y := fun v => b[v.val]?)

/-- A flip makes two assignments agree in a variable in which they differ. -/
theorem getElem?_flip_eq {v : Nat} {a b : Assignment} (ha : v < a.size) (hb : v < b.size)
    (h : a[v]? ≠ b[v]?) : (a.modify v not)[v]? = b[v]? := by
  rw [Array.getElem?_eq_getElem ha, Array.getElem?_eq_getElem hb] at h
  rw [Array.getElem?_modify, if_pos rfl, Array.getElem?_eq_getElem ha, Array.getElem?_eq_getElem hb,
    Option.map_some]
  exact congrArg some (Bool.not_eq.mpr fun heq => h (congrArg some heq))

/-- **A flip comes one closer** if the assignments differ in the variable. -/
theorem distance_flip {n v : Nat} {a b : Assignment} (ha : a.size = n) (hb : b.size = n)
    (hv : v < n) (h : a[v]? ≠ b[v]?) : distance n (a.modify v not) b + 1 = distance n a b := by
  have herase : (Finset.univ.filter fun u : Fin n => (a.modify v not)[u.val]? ≠ b[u.val]?) =
      (Finset.univ.filter fun u : Fin n => a[u.val]? ≠ b[u.val]?).erase ⟨v, hv⟩ := by
    ext u
    by_cases huv : u = ⟨v, hv⟩
    · subst huv
      simp [getElem?_flip_eq (by omega) (by omega) h]
    · have hne : v ≠ u.val := fun hu => huv (Fin.ext hu.symm)
      simp [Array.getElem?_modify, huv, hne]
  unfold distance hammingDist
  rw [herase]
  exact Finset.card_erase_add_one (by simpa using h)

/-- **An unsatisfied clause has a literal that comes closer**: one that a solution makes true. -/
theorem Clause.exists_closer {c : Clause} {a s : Assignment} (ha : c.holds a = false)
    (hs : c.holds s = true) :
    ∃ i, ∃ hi : i < c.literals.length, a[c.literals[i].var]? ≠ s[c.literals[i].var]? := by
  obtain ⟨l, hl, hls⟩ := List.any_eq_true.mp hs
  obtain ⟨i, hi, rfl⟩ := List.mem_iff_getElem.mp hl
  have hla := List.any_eq_false.mp ha _ hl
  refine ⟨i, hi, fun heq => hla ?_⟩
  unfold Literal.holds at hls ⊢
  rwa [heq]

/-! ## What draws can yield -/

section Draws

variable {ε ρ α β : Type}

/-- **Yielding**: the action can yield the value, and leave any given source behind. Since the
source that is left is arbitrary, the outcomes of successive draws are a free choice, as they are
for words that are given beforehand. A source with an invertible step does not have this choice: the
source that it leaves behind says which value was yielded. -/
def Yields (x : EStateM ε ρ α) (v : α) : Prop := ∀ w', ∃ w, x.run w = .ok v w'

theorem Yields.pure (v : α) : Yields (pure v : EStateM ε ρ α) v := fun w' => ⟨w', rfl⟩

theorem Yields.bind {x : EStateM ε ρ α} {f : α → EStateM ε ρ β} {v : α} {u : β} (hx : Yields x v)
    (hf : Yields (f v) u) : Yields (x >>= f) u := by
  intro w'
  obtain ⟨w₁, hw₁⟩ := hf w'
  obtain ⟨w, hw⟩ := hx w₁
  exact ⟨w, (run_bind_of_ok hw).trans hw₁⟩

namespace WordSource

/-- Every number below `n` is the high half of a product with `n`, with a low half below `n`. -/
theorem exists_word {m n j : Nat} (hn : n ≤ m) (hj : j < n) :
    ∃ v < m, v * n / m = j ∧ v * n % m < n := by
  -- The least word whose product with `n` is not below `j * m`.
  have hdiv := Nat.div_add_mod (j * m + (n - 1)) n
  have hmod := Nat.mod_lt (j * m + (n - 1)) (show 0 < n by omega)
  generalize (j * m + (n - 1)) / n = v at hdiv
  rw [Nat.mul_comm] at hdiv
  obtain ⟨r, hr, hprod⟩ : ∃ r < n, v * n = j * m + r := ⟨v * n - j * m, by omega, by omega⟩
  have hrm : r < m := by omega
  have hlt : v * n < m * n := by
    calc v * n
      _ < (j + 1) * m := by
        rw [Nat.add_one_mul]
        omega
      _ ≤ n * m := Nat.mul_le_mul_right m hj
      _ = m * n := Nat.mul_comm n m
  refine ⟨v, Nat.lt_of_mul_lt_mul_right hlt, ?_, ?_⟩
  · rw [hprod, Nat.mul_comm, Nat.mul_add_div (by omega), Nat.div_eq_of_lt hrm, Nat.add_zero]
  · rw [hprod, Nat.mul_comm, Nat.mul_add_mod, Nat.mod_eq_of_lt hrm]
    exact hr

theorem yields_scaled {m n j : Nat} {word : EStateM ε ρ Nat} (hword : ∀ v < m, Yields word v)
    (hn : n ≤ m) (hj : j < n) : Yields (scaled m word n) j := by
  intro w'
  obtain ⟨v, hv, hhigh, hlow⟩ := exists_word hn hj
  have hm : 0 < m := by omega
  by_cases hclose : m - n < v * n % m
  · obtain ⟨w₁, hw₁⟩ := hword 0 hm w'
    obtain ⟨w, hw⟩ := hword v hv w₁
    have hcarry : ¬ m ≤ v * n % m + 0 * n / m := by
      simpa using Nat.mod_lt (v * n) hm
    refine ⟨w, ?_⟩
    rw [scaled, EStateM.run_bind, hw]
    dsimp only
    rw [if_pos hclose, EStateM.run_bind, hw₁]
    dsimp only
    rw [if_neg hcarry, hhigh]
    rfl
  · obtain ⟨w, hw⟩ := hword v hv w'
    refine ⟨w, ?_⟩
    rw [scaled, EStateM.run_bind, hw]
    dsimp only
    rw [if_neg hclose, hhigh]
    rfl

theorem yields_word32 {v : Nat} (hv : v < 0x100000000) :
    Yields (word32 : EStateM ε WordCycle Nat) v := by
  intro w'
  have hword : (UInt64.ofNat v).toUInt32.toNat = v := by
    simp
    omega
  exact ⟨{ w' with left := UInt64.ofNat v :: w'.left }, congrArg (EStateM.Result.ok · w') hword⟩

theorem yields_word64 {v : Nat} (hv : v < 0x10000000000000000) :
    Yields (word64 : EStateM ε WordCycle Nat) v := by
  intro w'
  have hword : (UInt64.ofNat v).toNat = v := UInt64.toNat_ofNat_of_lt hv
  exact ⟨{ w' with left := UInt64.ofNat v :: w'.left }, congrArg (EStateM.Result.ok · w') hword⟩

/-- **A word cycle can yield every number below a bound**, since its words can be chosen. -/
theorem yields_below {n j : Nat} (hn : n ≤ 0x10000000000000000) (hj : j < n) :
    Yields (below n : EStateM Fault WordCycle Nat) j := by
  have hpos : n ≠ 0 := by omega
  unfold below
  rw [if_neg hpos]
  split
  · next hsmall =>
    exact yields_scaled (fun _ hv => yields_word32 hv) (Nat.le_of_lt hsmall) hj
  · exact yields_scaled (fun _ hv => yields_word64 hv) hn hj

end WordSource

end Draws

/-! ## Noise moves -/

section Moves

open WordSource (below)

variable {F ρ : Type} [Scalar F] [WordSource ρ]

/-- **Drawable instance**: noise moves can draw every number below the bounds that they use. -/
structure Instance.Drawable (ρ : Type) [WordSource ρ] (inst : Instance) : Prop where
  clause : ∀ n ≤ inst.numClauses, ∀ k < n, Yields (below n : EStateM Fault ρ Nat) k
  literal : ∀ c ∈ inst.clauses, ∀ i < c.literals.length,
    Yields (below c.literals.length : EStateM Fault ρ Nat) i

theorem Instance.length_violated_le (inst : Instance) (a : Assignment) :
    (inst.violated a).length ≤ inst.numClauses := by
  rw [inst.length_violated_eq_count]
  exact inst.numUnsatisfied_le a

namespace Strategy

variable (s : Strategy F) {inst : Instance} {a : Assignment}

/-- **A noise move**, given its draws: the clause, that there is noise, and the literal. -/
theorem run_neighbor_noise {js : List Nat} (hjs : inst.unsatisfiedClauses a = .ok js) {k : Nat}
    (hk : k < js.length) {c : Clause} (hc : inst.clause js[k] = .ok c) {i : Nat}
    (hi : i < c.literals.length) (hv : c.literals[i].var < a.size) {w w₁ w₂ w₃ : ρ}
    (hclause : (below js.length : EStateM Fault ρ Nat).run w = .ok k w₁)
    (hnoise : s.noisy.run w₁ = .ok true w₂)
    (hliteral : (below c.literals.length : EStateM Fault ρ Nat).run w₂ = .ok i w₃) :
    (s.neighbor inst a).run w =
      .ok ⟨a.modify c.literals[i].var not, .noise js[k] c.literals[i].var⟩ w₃ := by
  have hne : ¬ js.isEmpty = true := by
    intro hempty
    simp [List.isEmpty_iff.mp hempty] at hk
  have hmove : (s.selectMove inst a).run w = .ok (.noise js[k] c.literals[i].var, a) w₃ := by
    rw [selectMove, run_bind_of_ok (run_ofExcept hjs), if_neg hne, run_bind_of_ok hclause,
      run_bind_of_ok (run_ofExcept (fetch_eq_ok hk)), run_bind_of_ok (run_ofExcept hc),
      run_bind_of_ok hnoise, if_pos rfl, run_bind_of_ok hliteral,
      run_bind_of_ok (run_ofExcept (fetch_eq_ok hi))]
    rfl
  have hflip : flip a (Move.noise js[k] c.literals[i].var).var =
      .ok (a.modify c.literals[i].var not) := Instance.flip_eq_ok hv
  rw [neighbor, run_bind_of_ok hmove, run_bind_of_ok (run_ofExcept hflip)]
  rfl

theorem yields_neighbor_noise {js : List Nat} (hjs : inst.unsatisfiedClauses a = .ok js) {k : Nat}
    (hk : k < js.length) {c : Clause} (hc : inst.clause js[k] = .ok c) {i : Nat}
    (hi : i < c.literals.length) (hv : c.literals[i].var < a.size)
    (hclause : Yields (below js.length : EStateM Fault ρ Nat) k)
    (hnoise : Yields (s.noisy : EStateM Fault ρ Bool) true)
    (hliteral : Yields (below c.literals.length : EStateM Fault ρ Nat) i) :
    Yields (s.neighbor inst a : EStateM Fault ρ Proposal)
      ⟨a.modify c.literals[i].var not, .noise js[k] c.literals[i].var⟩ := by
  -- The draws are chosen from the last to the first.
  intro w₃
  obtain ⟨w₂, hw₂⟩ := hliteral w₃
  obtain ⟨w₁, hw₁⟩ := hnoise w₂
  obtain ⟨w, hw⟩ := hclause w₁
  exact ⟨w, s.run_neighbor_noise hjs hk hc hi hv hw hw₁ hw₂⟩

/-- **Chain**: a number of neighbours, each of the one before, with their moves. -/
def chain (s : Strategy F) (inst : Instance) :
    Nat → Assignment → EStateM Fault ρ (List Move × Assignment)
  | 0, a => pure ([], a)
  | n + 1, a => do
    let p ← s.neighbor inst a
    let (ms, b) ← chain s inst n p.candidate
    pure (p.move :: ms, b)

end Strategy

end Moves

/-! ## Coming closer to a solution -/

section Solutions

open WordSource (below)

variable {inst : Instance} {a s : Assignment}

theorem Instance.violated_eq_nil_iff_count (ha : a.size = inst.numVars) :
    inst.violated a = [] ↔ inst.countUnsatisfied a = .ok 0 := by
  rw [inst.violated_eq_nil_iff, inst.countUnsatisfied_eq_ok (Nat.le_of_eq ha.symm)]
  simp [numUnsatisfied, List.countP_eq_zero]

/-- **Every unsatisfied clause has a literal that comes closer** to a solution. -/
theorem Instance.exists_closer (ha : a.size = inst.numVars) (hs : s.size = inst.numVars)
    (hsolution : inst.violated s = []) {k : Nat} (hk : k < (inst.violated a).length) :
    ∃ c, c ∈ inst.clauses ∧ inst.clause (inst.violated a)[k] = .ok c ∧
      ∃ i, ∃ hi : i < c.literals.length, c.literals[i].var < inst.numVars ∧
        distance inst.numVars (a.modify c.literals[i].var not) s + 1 =
          distance inst.numVars a s := by
  obtain ⟨c, hc, hca⟩ := inst.mem_violated.mp (List.getElem_mem hk)
  have hmem := List.mem_of_getElem? hc
  have hcs := inst.violated_eq_nil_iff.mp hsolution c hmem
  obtain ⟨i, hi, hdiffer⟩ := Clause.exists_closer hca hcs
  have hv := inst.var_lt c hmem _ (List.getElem_mem hi)
  exact ⟨c, hmem, inst.clause_eq_ok hc, i, hi, hv, distance_flip ha hs hv hdiffer⟩

variable {F ρ : Type} [Scalar F] [WordSource ρ]

theorem Strategy.exists_chain (strategy : Strategy F) (hdraws : inst.Drawable ρ)
    (hnoise : Yields (strategy.noisy : EStateM Fault ρ Bool) true) (hs : s.size = inst.numVars)
    (hsolution : inst.violated s = []) (ha : a.size = inst.numVars) :
    ∃ n ≤ distance inst.numVars a s, ∃ ms b,
      Yields (strategy.chain inst n a : EStateM Fault ρ _) (ms, b) ∧
      (∀ m ∈ ms, ∃ j v, m = .noise j v) ∧ b.size = inst.numVars ∧ inst.violated b = [] := by
  -- Induction on the distance: as long as a clause is left, a move comes one closer.
  generalize hd : distance inst.numVars a s = d
  induction d generalizing a with
  | zero =>
    refine ⟨0, Nat.le_refl 0, [], a, Yields.pure _, by simp, ha, ?_⟩
    by_contra hne
    obtain ⟨c, -, -, i, hi, -, hcloser⟩ :=
      Instance.exists_closer ha hs hsolution (List.length_pos_iff.mpr hne)
    omega
  | succ d ih =>
    by_cases hnil : inst.violated a = []
    · exact ⟨0, Nat.zero_le _, [], a, Yields.pure _, by simp, ha, hnil⟩
    have hpos := List.length_pos_iff.mpr hnil
    obtain ⟨c, hmem, hc, i, hi, hv, hcloser⟩ := Instance.exists_closer ha hs hsolution hpos
    have hsize : (a.modify c.literals[i].var not).size = inst.numVars := by simpa using ha
    obtain ⟨n, hn, ms, b, hchain, hms, hb, hreached⟩ := ih hsize (by omega)
    have hmove := strategy.yields_neighbor_noise
      (inst.unsatisfiedClauses_eq_ok (Nat.le_of_eq ha.symm)) hpos hc hi (by omega)
      (hdraws.clause _ (inst.length_violated_le a) 0 hpos) hnoise (hdraws.literal c hmem i hi)
    refine ⟨n + 1, Nat.succ_le_succ hn, .noise (inst.violated a)[0] c.literals[i].var :: ms, b,
      hmove.bind (hchain.bind (Yields.pure _)), ?_, hb, hreached⟩
    rintro m hm
    rcases List.mem_cons.mp hm with rfl | hm
    · exact ⟨_, _, rfl⟩
    · exact hms m hm

/-- **Noise can reach every solution.** Whichever unsatisfied clause a move draws, it has a literal
whose draw comes one closer to the solution. So if the numbers below the bounds can be drawn, and
the moves can be noise, then from every assignment a chain of at most as many noise moves as there
are variables can end at a solution. -/
theorem Strategy.exists_noise_chain (strategy : Strategy F) (hs : s.size = inst.numVars)
    (hsolution : inst.countUnsatisfied s = .ok 0) :
    (∀ a : Assignment, a.size = inst.numVars → ∃ js, inst.unsatisfiedClauses a = .ok js ∧
      ∀ k (hk : k < js.length), ∃ c, inst.clause js[k] = .ok c ∧
        ∃ i < c.literals.length, ∀ w w₁ w₂ w₃ : ρ,
          (below js.length : EStateM Fault ρ Nat).run w = .ok k w₁ →
          strategy.noisy.run w₁ = .ok true w₂ →
          (below c.literals.length : EStateM Fault ρ Nat).run w₂ = .ok i w₃ →
          ∃ p, (strategy.neighbor inst a).run w = .ok p w₃ ∧ p.move.clause? = some js[k] ∧
            p.candidate.size = inst.numVars ∧
            distance inst.numVars p.candidate s + 1 = distance inst.numVars a s) ∧
    (inst.Drawable ρ → Yields (strategy.noisy : EStateM Fault ρ Bool) true →
      ∀ a : Assignment, a.size = inst.numVars → ∃ n ≤ inst.numVars, ∃ ms b,
        Yields (strategy.chain inst n a : EStateM Fault ρ _) (ms, b) ∧
        (∀ m ∈ ms, ∃ j v, m = .noise j v) ∧ b.size = inst.numVars ∧
        inst.countUnsatisfied b = .ok 0) := by
  rw [← Instance.violated_eq_nil_iff_count hs] at hsolution
  constructor
  · intro a ha
    have hjs := inst.unsatisfiedClauses_eq_ok (Nat.le_of_eq ha.symm)
    refine ⟨inst.violated a, hjs, fun k hk => ?_⟩
    obtain ⟨c, -, hc, i, hi, hv, hcloser⟩ := Instance.exists_closer ha hs hsolution hk
    refine ⟨c, hc, i, hi, fun w w₁ w₂ w₃ hclause hnoise hliteral => ?_⟩
    exact ⟨_, strategy.run_neighbor_noise hjs hk hc hi (by omega) hclause hnoise hliteral, rfl,
      by simpa using ha, hcloser⟩
  · intro hdraws hnoise a ha
    obtain ⟨n, hn, ms, b, hchain, hms, hb, hreached⟩ :=
      strategy.exists_chain hdraws hnoise hs hsolution ha
    exact ⟨n, Nat.le_trans hn (distance_le _ a s), ms, b, hchain, hms, hb,
      (Instance.violated_eq_nil_iff_count hb).mp hreached⟩

/-- Three variables, and clauses that repeat literals and variables. -/
def tangledInstance : Instance where
  name := "tangled"
  numVars := 3
  declaredClauses := 3
  weights := [1, 1, 1]
  clauses := [⟨[⟨0, false⟩, ⟨0, false⟩, ⟨1, true⟩], by decide⟩,
    ⟨[⟨2, true⟩, ⟨1, false⟩, ⟨2, true⟩], by decide⟩, ⟨[⟨1, true⟩, ⟨2, true⟩], by decide⟩]
  numVars_lt := by decide
  length_weights := rfl
  total_weights_le := by decide
  var_lt := by decide

theorem drawable_tangled : tangledInstance.Drawable WordCycle where
  clause n hn k hk := by
    have hlen : tangledInstance.numClauses = 3 := rfl
    exact WordSource.yields_below (by omega) hk
  literal c hc i hi := by
    have hlen : ∀ c ∈ tangledInstance.clauses, c.literals.length ≤ 3 := by decide
    have := hlen c hc
    exact WordSource.yields_below (by omega) hi

/-- A mixed move is noise after the word zero. -/
theorem yields_noisy_mixed :
    Yields ((Strategy.mixed (0.5 : Float)).noisy : EStateM Fault WordCycle Bool) true := by
  have hlt : Scalar.lt ((Scalar.ofCount 0 : Float) / Scalar.ofCount 0x10000000000000) 0.5 =
      true := by
    decide +kernel
  have hunit : Yields (WordSource.unit : EStateM Fault WordCycle Float)
      (Scalar.ofCount 0 / Scalar.ofCount 0x10000000000000) :=
    (WordSource.yields_word64 (v := 0) (by decide)).bind (Yields.pure _)
  rw [← hlt]
  exact hunit.bind (Yields.pure _)

theorem Strategy.exists_noise_chain_tangled :
    (∃ (w w' : WordCycle) (p : Proposal),
      ((Strategy.mixed (0.5 : Float)).neighbor tangledInstance #[true, false, false]).run w =
        .ok p w' ∧ distance 3 p.candidate #[false, true, true] = 2) ∧
      ∃ n ≤ 3, ∃ ms b,
        Yields ((Strategy.mixed (0.5 : Float)).chain tangledInstance n #[true, false, false] :
          EStateM Fault WordCycle _) (ms, b) ∧ tangledInstance.countUnsatisfied b = .ok 0 := by
  have hsolution : tangledInstance.countUnsatisfied #[false, true, true] = .ok 0 := by
    decide
  obtain ⟨hcloser, hchain⟩ := Strategy.exists_noise_chain (ρ := WordCycle)
    (Strategy.mixed (0.5 : Float)) rfl hsolution
  constructor
  · obtain ⟨js, hjs, hcloser⟩ := hcloser #[true, false, false] rfl
    obtain rfl : [0, 2] = js := Except.ok.inj hjs
    obtain ⟨c, hc, i, hi, hmove⟩ := hcloser 1 (by decide)
    obtain rfl := Except.ok.inj hc
    obtain ⟨w₂, hw₂⟩ := WordSource.yields_below (by decide) hi ⟨[], []⟩
    obtain ⟨w₁, hw₁⟩ := yields_noisy_mixed w₂
    obtain ⟨w, hw⟩ := WordSource.yields_below (n := 2) (j := 1) (by decide) (by decide) w₁
    obtain ⟨p, hp, -, -, hdistance⟩ := hmove w w₁ w₂ _ hw hw₁ hw₂
    refine ⟨w, _, p, hp, Nat.succ.inj (hdistance.trans ?_)⟩
    decide
  · obtain ⟨n, hn, ms, b, hyields, -, -, hb⟩ :=
      hchain drawable_tangled yields_noisy_mixed #[true, false, false] rfl
    exact ⟨n, hn, ms, b, hyields, hb⟩

end Solutions

end WeightedSat
