import WeightedSat.Proofs.Anneal.Ending
import WeightedSat.Proofs.Unsatisfied

/-!
# Twin objectives

A search looks at its instance only through the clauses that an assignment leaves unsatisfied, taken
in order, through the number of variables, and through energies and weights. Two objectives that
agree on these, except that the weights of one are those of the other times a positive number, and
that one has more clauses which never are unsatisfied, are twins: from the same source, their
searches draw the same words, visit the same assignments, and report the same but for the factor.

The numbers of the clauses need not agree, so neither do the moves, which name them. What agrees is
the variable that a move flips, since a clause is drawn by its place among the unsatisfied ones.

## Main definitions

* `RunResult.scale k`, `TraceRow.retell k d`: what a search reports, with weights times `k`
* `Objective.Twin k d o o'`: twins, with the factor `k` and `d` more clauses
* `Objective.InStep`: two searches side by side, their results, positions and rows related by maps

## Main results

* `Objective.Twin.attempt`: a move of twins
* `Objective.Twin.visited_eq`, `Objective.Twin.report_eq`: the walks of twins and what they make
* `Objective.Twin.inStep`: the searches of twins are in step
-/

namespace WeightedSat

variable {F ρ σ : Type}

/-! ## Multiplying weights -/

/-- The standing with its weight times `k`; and so for what holds a standing. -/
def Standing.scale (k : Nat) (s : Standing) : Standing := { s with weight := k * s.weight }

def Evaluation.scale (k : Nat) (e : Evaluation F) : Evaluation F :=
  { e with weight := k * e.weight }

def Position.scale (k : Nat) (p : Position F) : Position F := { p with weight := k * p.weight }

def Best.scale (k : Nat) (b : Best) : Best := { b with weight := k * b.weight }

def Snapshot.scale (k : Nat) (s : Snapshot) : Snapshot := { s with weight := k * s.weight }

/-- The result with all its weights times `k`. -/
def RunResult.scale (k : Nat) (r : RunResult F) : RunResult F :=
  { r with best := r.best.scale k, history := r.history.map (Snapshot.scale k) }

/-- The row with its weight times `k`, and with `d` more satisfied clauses. -/
def TraceRow.retell (k d : Nat) (row : TraceRow F) : TraceRow F :=
  { row with weight := k * row.weight, satisfied := row.satisfied + d }

theorem Standing.beats_scale {k : Nat} (hk : 0 < k) (s t : Standing) :
    (s.scale k).beats (t.scale k) = s.beats t := by
  rw [Bool.eq_iff_iff, beats_iff, beats_iff]
  simp only [scale, Nat.mul_lt_mul_left hk]

theorem Snapshot.scale_one (s : Snapshot) : s.scale 1 = s := by
  simp [scale]

theorem Position.scale_one (p : Position F) : p.scale 1 = p := by
  simp [scale]

theorem TraceRow.retell_one (d : Nat) (row : TraceRow F) :
    row.retell 1 d = { row with satisfied := row.satisfied + d } := by
  simp [retell]

theorem RunResult.scale_one (r : RunResult F) : r.scale 1 = r := by
  have hhistory : r.history.map (Snapshot.scale 1) = r.history := by
    rw [funext Snapshot.scale_one, Array.map_id']
  simp [scale, Best.scale, hhistory]

/-! ## Twins -/

namespace Objective

/-- **Twins**: the same clauses are unsatisfied in both, in the same order, the weights of one are
those of the other times `k`, and so are the units in which energies are measured. -/
structure Twin [Scalar F] (k d : Nat) (o o' : Objective F) : Prop where
  pos : 0 < k
  numVars_eq : o'.inst.numVars = o.inst.numVars
  numClauses_eq : o'.inst.numClauses = o.inst.numClauses + d
  numClauses_eq_zero : o.inst.numClauses = 0 → o'.inst.numClauses = 0
  broken_eq : ∀ a : Assignment, a.size = o.inst.numVars → o'.inst.broken a = o.inst.broken a
  weightOf_eq : ∀ a : Assignment, o'.inst.weightOf a = k * o.inst.weightOf a
  energyOf_eq : ∀ unsatisfied weight : Nat,
    o'.energyOf unsatisfied (k * weight) = o.energyOf unsatisfied weight

namespace Twin

variable [Scalar F] {k d : Nat} {o o' : Objective F} (h : Twin k d o o')
include h

theorem numUnsatisfied_eq {a : Assignment} (ha : a.size = o.inst.numVars) :
    o'.inst.numUnsatisfied a = o.inst.numUnsatisfied a := by
  rw [← Instance.length_broken, ← Instance.length_broken, h.broken_eq a ha]

theorem length_violated_eq {a : Assignment} (ha : a.size = o.inst.numVars) :
    (o'.inst.violated a).length = (o.inst.violated a).length := by
  rw [Instance.length_violated, Instance.length_violated, h.broken_eq a ha]

theorem score_eq {a : Assignment} (ha : a.size = o.inst.numVars) :
    o'.score a = (o.score a).scale k := by
  simp only [score, Evaluation.scale, h.numUnsatisfied_eq ha, h.weightOf_eq a, h.energyOf_eq]

theorem evaluate_eq_ok {a : Assignment} (ha : a.size = o.inst.numVars) :
    o'.evaluate a = .ok ((o.score a).scale k) := by
  rw [← h.score_eq ha]
  exact o'.evaluate_eq_ok (Nat.le_of_eq (h.numVars_eq.trans ha.symm))

/-! ### Moves -/

theorem probe_eq {a : Assignment} (ha : a.size = o.inst.numVars) {v : Nat}
    (hv : v < o.inst.numVars) : o'.inst.probe a v = o.inst.probe a v := by
  have hsize : (a.modify v not).size = o.inst.numVars := by simpa using ha
  rw [o.inst.probe_eq_ok (Nat.le_of_eq ha.symm) (by omega),
    o'.inst.probe_eq_ok (Nat.le_of_eq (h.numVars_eq.trans ha.symm)) (by omega),
    Instance.flipCost, Instance.flipCost, h.numUnsatisfied_eq hsize]

theorem leastFlip_eq {a : Assignment} (ha : a.size = o.inst.numVars) {ls : List Literal}
    (hls : ∀ l ∈ ls, l.var < o.inst.numVars) (best count : Nat) :
    o'.inst.leastFlip a best count ls = o.inst.leastFlip a best count ls := by
  have hcover : o.inst.numVars ≤ a.size := Nat.le_of_eq ha.symm
  induction ls generalizing best count with
  | nil => rfl
  | cons l ls ih =>
    have hl := hls l List.mem_cons_self
    have hrest := ih fun m hm => hls m (List.mem_cons_of_mem _ hm)
    simp only [Instance.leastFlip, h.probe_eq ha hl,
      o.inst.probe_eq_ok hcover (Nat.lt_of_lt_of_le hl hcover), hrest]

theorem greedyVar_eq {a : Assignment} (ha : a.size = o.inst.numVars) {c : Clause}
    (hc : ∀ l ∈ c.literals, l.var < o.inst.numVars) :
    o'.inst.greedyVar a c = o.inst.greedyVar a c := by
  have hcover : o.inst.numVars ≤ a.size := Nat.le_of_eq ha.symm
  have hhead := hc _ (List.head_mem c.literals_ne_nil)
  have htail : ∀ l ∈ c.literals.tail, l.var < o.inst.numVars := fun l hl =>
    hc l (List.mem_of_mem_tail hl)
  simp only [Instance.greedyVar, h.probe_eq ha hhead,
    o.inst.probe_eq_ok hcover (Nat.lt_of_lt_of_le hhead hcover), h.leastFlip_eq ha htail]

/-- **The clause at a place** among the unsatisfied ones is the same, whatever its number is. -/
theorem exists_clause {a : Assignment} (ha : a.size = o.inst.numVars) {k : Nat}
    (hk : k < (o.inst.violated a).length) (hk' : k < (o'.inst.violated a).length) :
    ∃ c ∈ o.inst.clauses, o.inst.clause (o.inst.violated a)[k] = .ok c ∧
      o'.inst.clause (o'.inst.violated a)[k] = .ok c := by
  have hplace : k < (o.inst.broken a).length := by rwa [← Instance.length_violated]
  have hplace' : k < (o'.inst.broken a).length := by rwa [← Instance.length_violated]
  have hsame : (o'.inst.broken a)[k] = (o.inst.broken a)[k] := by
    simp only [h.broken_eq a ha]
  refine ⟨(o.inst.broken a)[k], (List.mem_filter.mp (List.getElem_mem hplace)).1,
    o.inst.clause_violated a hk hplace, ?_⟩
  rw [← hsame]
  exact o'.inst.clause_violated a hk' hplace'

variable [WordSource ρ]

/-- **Choosing a move**: the same words are drawn, the same variable is chosen, and the same scratch
is left. -/
theorem selectMove (strategy : Strategy F) {a : Assignment} (ha : a.size = o.inst.numVars)
    (w : ρ) : Alongside (strategy.selectMove o.inst a) (strategy.selectMove o'.inst a) w
      fun m m' => m'.1.var = m.1.var ∧ m'.2 = m.2 := by
  have hcover : o.inst.numVars ≤ a.size := Nat.le_of_eq ha.symm
  have hcover' : o'.inst.numVars ≤ a.size := by rwa [h.numVars_eq]
  have hlength := h.length_violated_eq ha
  have hempty : (o'.inst.violated a).isEmpty = (o.inst.violated a).isEmpty := by
    rw [Bool.eq_iff_iff, List.isEmpty_iff_length_eq_zero, List.isEmpty_iff_length_eq_zero, hlength]
  refine (Alongside.ofExcept (o.inst.unsatisfiedClauses_eq_ok hcover)
    (o'.inst.unsatisfiedClauses_eq_ok hcover')).bind ?_
  rintro _ _ w ⟨rfl, rfl⟩
  by_cases hnil : (o.inst.violated a).isEmpty = true
  · rw [if_pos hnil, if_pos (hempty.trans hnil), h.numVars_eq]
    refine (Alongside.refl (WordSource.succeeds_below o.numVars_ne_zero w)).bind ?_
    rintro _ v w ⟨-, rfl⟩
    exact Alongside.pure ⟨rfl, rfl⟩
  · have hpositive : (o.inst.violated a).length ≠ 0 := by
      rwa [Ne, ← List.isEmpty_iff_length_eq_zero]
    rw [if_neg hnil, if_neg (by rwa [hempty]), hlength]
    refine (Alongside.refl (WordSource.succeeds_below hpositive w)).bind ?_
    rintro _ k w ⟨hk, rfl⟩
    have hk' : k < (o'.inst.violated a).length := by rwa [hlength]
    obtain ⟨c, hmem, hc, hc'⟩ := h.exists_clause ha hk hk'
    refine (Alongside.ofExcept (fetch_eq_ok hk) (fetch_eq_ok hk')).bind ?_
    rintro _ _ w ⟨rfl, rfl⟩
    refine (Alongside.ofExcept hc hc').bind ?_
    rintro _ c w ⟨rfl, rfl⟩
    refine (Alongside.refl (strategy.succeeds_noisy w)).bind ?_
    rintro _ noisy w ⟨-, rfl⟩
    cases noisy with
    | true =>
      have hls : c.literals.length ≠ 0 := by simpa using c.literals_ne_nil
      refine (Alongside.refl (WordSource.succeeds_below hls w)).bind ?_
      rintro _ i w ⟨hi, rfl⟩
      refine (Alongside.ofExcept (fetch_eq_ok hi) (fetch_eq_ok hi)).bind ?_
      rintro _ _ w ⟨rfl, rfl⟩
      exact Alongside.pure ⟨rfl, rfl⟩
    | false =>
      obtain ⟨v, hv, -⟩ := o.inst.greedyVar_spec hcover hmem
      have hv' : o'.inst.greedyVar a c = .ok (v, a) := by
        rw [h.greedyVar_eq ha (o.inst.var_lt c hmem), hv]
      refine (Alongside.ofExcept hv hv').bind ?_
      rintro _ _ w ⟨rfl, rfl⟩
      exact Alongside.pure ⟨rfl, rfl⟩

theorem neighbor (strategy : Strategy F) {a : Assignment} (ha : a.size = o.inst.numVars) (w : ρ) :
    Alongside (strategy.neighbor o.inst a) (strategy.neighbor o'.inst a) w
      fun p p' => p.candidate.size = o.inst.numVars ∧ p'.candidate = p.candidate := by
  have hcover : o.inst.numVars ≤ a.size := Nat.le_of_eq ha.symm
  refine ((h.selectMove strategy ha w).and_left
    (strategy.succeeds_selectMove o.numVars_ne_zero hcover w)).bind ?_
  rintro ⟨m, scratch⟩ ⟨m', scratch'⟩ w ⟨⟨hfits, hscratch⟩, hvar, hsame⟩
  obtain rfl : a = scratch := hscratch.symm
  obtain rfl : a = scratch' := hsame.symm
  have hflip : flip a m.var = .ok (a.modify m.var not) :=
    Instance.flip_eq_ok (Nat.lt_of_lt_of_le hfits.var_lt hcover)
  have hflip' : flip a m'.var = .ok (a.modify m.var not) := by rw [hvar, hflip]
  refine (Alongside.ofExcept hflip hflip').bind ?_
  rintro _ _ w ⟨rfl, rfl⟩
  exact Alongside.pure ⟨by simpa using ha, rfl⟩

/-- **A move of twins**: the same words are drawn, and the same candidate gets the same decision. -/
theorem attempt (strategy : Strategy F) (temperature : F) {p : Position F} (hp : p.Sound o)
    (w : ρ) : Alongside (o.attempt strategy temperature p)
      (o'.attempt strategy temperature (p.scale k)) w
      fun t t' => t'.candidate = t.candidate.scale k ∧ t'.improving = t.improving ∧
        t'.accepted = t.accepted := by
  refine (h.neighbor strategy hp.size_eq w).bind ?_
  rintro ⟨a, m⟩ ⟨_, m'⟩ w ⟨hsize, rfl⟩
  refine (Alongside.ofExcept (o.evaluate_eq_ok (Nat.le_of_eq hsize.symm))
    (h.evaluate_eq_ok hsize)).bind ?_
  rintro _ _ w ⟨rfl, rfl⟩
  refine (Alongside.refl (succeeds_accepts _ temperature w)).bind ?_
  rintro _ accepted w ⟨-, rfl⟩
  exact Alongside.pure ⟨rfl, rfl, rfl⟩

/-! ### Walks -/

theorem initial (w : ρ) :
    Alongside o.initial o'.initial w fun p p' => p' = p.scale k := by
  unfold Objective.initial
  rw [h.numVars_eq]
  refine (Alongside.refl (succeeds_coins o.inst.numVars w)).bind ?_
  rintro _ bits w ⟨hbits, rfl⟩
  have hsize : bits.toArray.size = o.inst.numVars := by simpa using hbits
  refine (Alongside.ofExcept (o.evaluate_eq_ok (Nat.le_of_eq hsize.symm))
    (h.evaluate_eq_ok hsize)).bind ?_
  rintro _ _ w ⟨rfl, rfl⟩
  exact Alongside.pure rfl

variable (strategy : Strategy F) (s : Schedule F) (source : ρ)

theorem walk (i : Nat) :
    Alongside (o.walk strategy s i) (o'.walk strategy s i) source fun p p' => p' = p.scale k := by
  -- Induction on the number of moves; each starts from a sound position of the first walk.
  induction i with
  | zero => exact h.initial source
  | succ i ih =>
    refine (ih.and_left (o.succeeds_walk strategy s i source)).bind ?_
    rintro p _ w ⟨hp, rfl⟩
    refine (h.attempt strategy (s.temperatureAt i) hp w).bind ?_
    rintro t t' w ⟨hcandidate, -, haccepted⟩
    refine Alongside.pure ?_
    unfold Trial.next
    rw [hcandidate, haccepted]
    split <;> rfl

theorem visited_eq (i : Nat) :
    o'.visited strategy s source i = (o.visited strategy s source i).scale k ∧
      o'.remaining strategy s source i = o.remaining strategy s source i :=
  (h.walk strategy s source i).of_run (o.run_walk strategy s source i)
    (o'.run_walk strategy s source i)

theorem tried_eq (i : Nat) :
    (o'.tried strategy s source i).improving = (o.tried strategy s source i).improving ∧
      (o'.tried strategy s source i).accepted = (o.tried strategy s source i).accepted := by
  obtain ⟨hvisited, hremaining⟩ := h.visited_eq strategy s source i
  have hrun' := o'.run_attempt strategy s source i
  rw [hvisited, hremaining] at hrun'
  exact ((h.attempt strategy (s.temperatureAt i) (o.visited_sound strategy s source i) _).of_run
    (o.run_attempt strategy s source i) hrun').1.2

theorem tallyAt_eq (n : Nat) :
    o'.tallyAt strategy s source n = o.tallyAt strategy s source n := by
  induction n with
  | zero => rfl
  | succ n ih =>
    obtain ⟨himproving, haccepted⟩ := h.tried_eq strategy s source n
    simp only [tallyAt, ih, himproving, haccepted]

theorem bestAt_eq (n : Nat) :
    o'.bestAt strategy s source n = (o.bestAt strategy s source n).scale k := by
  induction n with
  | zero =>
    simp only [bestAt, (h.visited_eq strategy s source 0).1]
    rfl
  | succ n ih =>
    simp only [bestAt, ih, (h.visited_eq strategy s source (n + 1)).1]
    have hbeats := Standing.beats_scale h.pos
      (o.visited strategy s source (n + 1)).toStanding (o.bestAt strategy s source n).toStanding
    by_cases hb : (o.visited strategy s source (n + 1)).toStanding.beats
        (o.bestAt strategy s source n).toStanding = true
    · rw [if_pos hb]
      exact if_pos (hbeats.trans hb)
    · rw [if_neg hb]
      exact if_neg (fun hb' => hb (hbeats.symm.trans hb'))

theorem snapshots_eq (levels : Nat) :
    o'.snapshots strategy s source levels =
      (o.snapshots strategy s source levels).map (Snapshot.scale k) := by
  unfold snapshots snapshotAt
  rw [List.map_map]
  apply List.map_congr_left
  intro l _
  rw [h.bestAt_eq]
  rfl

/-- **The report of twins**: all is the same but for the weights. -/
theorem report_eq (levels : Nat) :
    o'.report strategy s source levels = (o.report strategy s source levels).scale k := by
  have henergy : ∀ b : Best, (b.scale k).energy o' = b.energy o := fun b =>
    h.energyOf_eq b.unsatisfied b.weight
  simp only [report, RunResult.scale, h.bestAt_eq, h.tallyAt_eq, h.snapshots_eq, h.numVars_eq,
    henergy, List.map_toArray]

theorem rows_eq (n : Nat) :
    o'.rows strategy s source n = (o.rows strategy s source n).map (TraceRow.retell k d) := by
  unfold rows
  rw [List.map_map]
  apply List.map_congr_left
  intro i _
  have hle := (o.visited_sound strategy s source i).unsatisfied_le
  have hsatisfied : o.inst.numClauses + d - (o.visited strategy s source i).unsatisfied =
      o.inst.numClauses - (o.visited strategy s source i).unsatisfied + d := by
    omega
  simp only [rowAt, (h.visited_eq strategy s source i).1, h.numClauses_eq]
  exact congrArg _ hsatisfied

end Twin

/-! ### Searches -/

/-- **In step**, up to three maps: two searches from the same source draw the same words and visit
assignments that correspond. In silence they end in the same way; if both report a result, whatever
their sinks are, one result is the image of the other; and so are their rows. -/
structure InStep [Scalar F] [WordSource ρ] (onResult : RunResult F → RunResult F)
    (onPosition : Position F → Position F) (onRow : TraceRow F → TraceRow F) (o o' : Objective F)
    (strategy : Strategy F) (schedule : Schedule F) (source : ρ) : Prop where
  silent : ∀ (σ : Type) [TraceSink F σ],
    (anneal o' strategy schedule source (none : Option σ)).outcome =
        (anneal o strategy schedule source (none : Option σ)).outcome.map onResult ∧
      (anneal o' strategy schedule source (none : Option σ)).source =
        (anneal o strategy schedule source (none : Option σ)).source
  walk : ∀ i, ∃ p w, (o.walk strategy schedule i).run source = .ok p w ∧
    (o'.walk strategy schedule i).run source = .ok (onPosition p) w
  reported : ∀ {σ τ : Type} [TraceSink F σ] [TraceSink F τ] {sink : Option σ} {sink' : Option τ}
    {r r' : RunResult F}, (anneal o strategy schedule source sink).outcome = .ok r →
    (anneal o' strategy schedule source sink').outcome = .ok r' →
    r' = onResult r ∧ (anneal o' strategy schedule source sink').source =
        (anneal o strategy schedule source sink).source ∧
      ∃ s s', Search.Itinerary o strategy schedule source sink r.iterations s ∧
        Search.Itinerary o' strategy schedule source sink' r.iterations s' ∧
        ∀ i ≤ r.iterations,
          (s' i).position = onPosition (s i).position ∧ (s' i).source = (s i).source
  rows : ∀ {σ : Type} [TraceSink F σ] {r : RunResult F},
    (anneal o strategy schedule source (none : Option σ)).outcome = .ok r →
    ∃ rows : List (TraceRow F), rows.length = r.iterations + 1 ∧
      (anneal o strategy schedule source (some ({} : RowLog F))).sink = some ⟨rows.toArray⟩ ∧
      (anneal o' strategy schedule source (some ({} : RowLog F))).sink =
        some ⟨(rows.map onRow).toArray⟩ ∧
      ∀ {τ : Type} [TraceSink F τ] (sink : Option τ),
        Ended.Tells rows (anneal o strategy schedule source (none : Option σ)) sink
            (anneal o strategy schedule source sink) ∧
          Ended.Tells (rows.map onRow)
            (anneal o' strategy schedule source (none : Option σ)) sink
            (anneal o' strategy schedule source sink)

namespace Twin

section Searches

variable [Scalar F] [WordSource ρ] {k d : Nat} {o o' : Objective F} (h : Twin k d o o')
  (strategy : Strategy F) (schedule : Schedule F) (source : ρ)
include h

theorem anneal_silent_eq (σ : Type) [TraceSink F σ] :
    (anneal o' strategy schedule source (none : Option σ)).outcome =
        (anneal o strategy schedule source (none : Option σ)).outcome.map (RunResult.scale k) ∧
      (anneal o' strategy schedule source (none : Option σ)).source =
        (anneal o strategy schedule source (none : Option σ)).source := by
  cases hc : schedule.check with
  | error e =>
    rw [anneal_of_check_eq_error hc, anneal_of_check_eq_error hc]
    exact ⟨rfl, rfl⟩
  | ok _ =>
    by_cases hn : o.inst.numClauses = 0
    · rw [anneal_of_numClauses_eq_zero hc hn,
        anneal_of_numClauses_eq_zero hc (h.numClauses_eq_zero hn)]
      exact ⟨rfl, rfl⟩
    · have hn' : o'.inst.numClauses ≠ 0 := by
        rw [h.numClauses_eq]
        omega
      rcases anneal_silent (o := o) σ strategy source hc hn with
        ⟨n, hfreezes, hroom, houtcome, hsource⟩ | ⟨hlate, houtcome, hsource⟩ <;>
      rcases anneal_silent (o := o') σ strategy source hc hn' with
        ⟨n', hfreezes', hroom', houtcome', hsource'⟩ | ⟨hlate', houtcome', hsource'⟩
      · obtain rfl := hfreezes.unique hfreezes'
        rw [houtcome, houtcome', hsource, hsource', h.report_eq,
          (h.visited_eq strategy schedule source _).2]
        exact ⟨rfl, rfl⟩
      · exact absurd (hlate' n hfreezes.frozen) (by omega)
      · exact absurd (hlate n' hfreezes'.frozen) (by omega)
      · rw [houtcome, houtcome', hsource, hsource', (h.visited_eq strategy schedule source _).2]
        exact ⟨rfl, rfl⟩

theorem anneal_reported {σ τ : Type} [TraceSink F σ] [TraceSink F τ] {sink : Option σ}
    {sink' : Option τ} {r r' : RunResult F}
    (hr : (anneal o strategy schedule source sink).outcome = .ok r)
    (hr' : (anneal o' strategy schedule source sink').outcome = .ok r') :
    r' = r.scale k ∧ (anneal o' strategy schedule source sink').source =
        (anneal o strategy schedule source sink).source ∧
      ∃ s s', Search.Itinerary o strategy schedule source sink r.iterations s ∧
        Search.Itinerary o' strategy schedule source sink' r.iterations s' ∧
        ∀ i ≤ r.iterations,
          (s' i).position = (s i).position.scale k ∧ (s' i).source = (s i).source := by
  obtain ⟨hfreezes, -, hreport, hsource⟩ := anneal_eq_report hr
  obtain ⟨hfreezes', -, hreport', hsource'⟩ := anneal_eq_report hr'
  have hresult : r' = r.scale k := by
    rw [hreport', hreport, ← hfreezes.unique hfreezes', h.report_eq]
  have hiterations : r'.iterations = r.iterations := by
    rw [hresult]
    rfl
  obtain ⟨s, hs, hwalk, -⟩ := anneal_itinerary hr
  obtain ⟨s', hs', hwalk', -⟩ := anneal_itinerary hr'
  rw [hiterations] at hs' hwalk' hsource'
  refine ⟨hresult, ?_, s, s', hs, hs', ?_⟩
  · rw [hsource, hsource', (h.visited_eq strategy schedule source _).2]
  · intro i hi
    obtain ⟨hvisited, hremaining⟩ := h.visited_eq strategy schedule source i
    rw [(hwalk i hi).position_eq, (hwalk' i hi).position_eq, (hwalk i hi).source_eq,
      (hwalk' i hi).source_eq]
    exact ⟨hvisited, hremaining⟩

/-- **The searches of twins are in step.** -/
theorem inStep : InStep (RunResult.scale k) (Position.scale k) (TraceRow.retell k d) o o' strategy
    schedule source where
  silent := h.anneal_silent_eq strategy schedule source
  walk i := by
    obtain ⟨hvisited, hremaining⟩ := h.visited_eq strategy schedule source i
    refine ⟨_, _, o.run_walk strategy schedule source i, ?_⟩
    rw [← hvisited, ← hremaining]
    exact o'.run_walk strategy schedule source i
  reported := h.anneal_reported strategy schedule source
  rows := by
    intro σ _ r hr
    have hr' : (anneal o' strategy schedule source (none : Option σ)).outcome =
        .ok (r.scale k) := by
      rw [(h.anneal_silent_eq strategy schedule source σ).1, hr]
      rfl
    refine ⟨_, o.length_rows strategy schedule source _, (anneal_rowLog hr).2, ?_, ?_⟩
    · rw [(anneal_rowLog hr').2, h.rows_eq]
      rfl
    · intro τ _ sink
      rw [← h.rows_eq]
      exact ⟨anneal_tells hr sink, anneal_tells hr' sink⟩

end Searches

end Twin

end Objective

end WeightedSat
