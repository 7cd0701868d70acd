import Mathlib.Order.Bounds.Basic
import WeightedSat.Proofs.Anneal.Report
import WeightedSat.Proofs.Anneal.Trace
import WeightedSat.Proofs.Comparison

/-!
# The counters of the moves

The four counters of a search can be read off the states that it visits. A candidate is one flip
away from its state, so a move is accepted exactly if the assignment changes; a rejection leaves it
as it was. The stagnation at the end is then the length of the longest unchanged block at the end,
and the longest stagnation that of the longest unchanged block anywhere, whichever levels it spans.
A move that improves is accepted as long as what is less is not more.

## Main definitions

* `Unchanged changed i j`: no change in the steps from `i` to before `j`
* `Tally.Counts changed better n t`: the tally counts the first `n` steps

## Main results

* `Tally.Counts.add`: one more move
* `Tally.Counts.longest_le`: what has stagnated was not accepted
* `Objective.counts_tallyAt`: the tally of the walk counts its changes of assignment
* `anneal_counters`: the counters of a search
-/

namespace WeightedSat

/-! ## Counting steps -/

section Steps

variable {changed better : Nat → Bool} {n : Nat} {t : Tally}

/-- **Unchanged block**: none of the steps from `i` to before `j` changes anything. -/
def Unchanged (changed : Nat → Bool) (i j : Nat) : Prop :=
  ∀ m, i ≤ m → m < j → changed m = false

theorem Unchanged.snoc {i : Nat} (h : Unchanged changed i n) (hn : changed n = false) :
    Unchanged changed i (n + 1) := by
  intro m him hmn
  rcases Nat.lt_succ_iff_lt_or_eq.mp hmn with hmn | rfl
  · exact h m him hmn
  · exact hn

theorem Unchanged.congr {changed' : Nat → Bool} {i j : Nat} (h : Unchanged changed i j)
    (heq : ∀ m < j, changed m = changed' m) : Unchanged changed' i j := by
  intro m him hmj
  rw [← heq m hmj]
  exact h m him hmj

theorem Unchanged.mono {i j k : Nat} (h : Unchanged changed i k) (hj : j ≤ k) :
    Unchanged changed i j :=
  fun m him hmj => h m him (Nat.lt_of_lt_of_le hmj hj)

/-- No block that is not empty ends with a change. -/
theorem Unchanged.eq_of_changed {i : Nat} (h : Unchanged changed i (n + 1))
    (hn : changed n = true) (hi : i ≤ n + 1) : i = n + 1 := by
  by_contra hne
  have hfalse := h n (by omega) (Nat.lt_succ_self n)
  rw [hn] at hfalse
  cases hfalse

namespace Tally

theorem add_accepted (better changed : Bool) (t : Tally) :
    (t.add better changed).accepted = t.accepted + if changed then 1 else 0 := by
  cases better <;> cases changed <;> rfl

theorem add_improving (better changed : Bool) (t : Tally) :
    (t.add better changed).improving = t.improving + if better then 1 else 0 := by
  cases better <;> cases changed <;> rfl

theorem add_stagnation (better changed : Bool) (t : Tally) :
    (t.add better changed).stagnation = if changed then 0 else t.stagnation + 1 := by
  cases better <;> cases changed <;> rfl

theorem add_longestStagnation (better changed : Bool) (t : Tally) :
    (t.add better changed).longestStagnation =
      if changed then t.longestStagnation else max t.longestStagnation (t.stagnation + 1) := by
  cases better <;> cases changed <;> rfl

end Tally

/-- **Counting** the first `n` steps: how many change something, how many are better, the length of
the longest unchanged block at the end, and of the longest one anywhere. -/
structure Tally.Counts (changed better : Nat → Bool) (n : Nat) (t : Tally) : Prop where
  accepted_eq : t.accepted = (List.range n).countP changed
  improving_eq : t.improving = (List.range n).countP better
  stagnation : IsGreatest {k | k ≤ n ∧ Unchanged changed (n - k) n} t.stagnation
  longest : IsGreatest {k | ∃ i, i + k ≤ n ∧ Unchanged changed i (i + k)} t.longestStagnation

namespace Tally.Counts

theorem countP_range_succ (p : Nat → Bool) (n : Nat) :
    (List.range (n + 1)).countP p = (List.range n).countP p + if p n then 1 else 0 := by
  rw [List.range_succ, List.countP_append, List.countP_singleton]

theorem zero (changed better : Nat → Bool) : ({} : Tally).Counts changed better 0 where
  accepted_eq := rfl
  improving_eq := rfl
  stagnation := ⟨⟨Nat.le_refl 0, fun m _ hm => absurd hm (Nat.not_lt_zero m)⟩, fun _ hk => hk.1⟩
  longest := by
    refine ⟨⟨0, Nat.le_refl 0, fun m _ hm => absurd hm (Nat.not_lt_zero m)⟩, ?_⟩
    rintro k ⟨i, hik, -⟩
    omega

/-- The counts are about the first `n` steps only. -/
theorem congr {changed' better' : Nat → Bool} (h : t.Counts changed better n)
    (hchanged : ∀ i < n, changed i = changed' i) (hbetter : ∀ i < n, better i = better' i) :
    t.Counts changed' better' n := by
  have hblock : ∀ i j, j ≤ n → (Unchanged changed i j ↔ Unchanged changed' i j) := by
    intro i j hj
    refine ⟨fun hu => hu.congr fun m hm => hchanged m (by omega), fun hu => hu.congr fun m hm => ?_⟩
    exact (hchanged m (by omega)).symm
  constructor
  · rw [h.accepted_eq]
    exact List.countP_congr fun i hi => by rw [hchanged i (List.mem_range.mp hi)]
  · rw [h.improving_eq]
    exact List.countP_congr fun i hi => by rw [hbetter i (List.mem_range.mp hi)]
  · refine ⟨⟨h.stagnation.1.1, (hblock _ _ (Nat.le_refl n)).mp h.stagnation.1.2⟩, ?_⟩
    rintro k ⟨hk, hu⟩
    exact h.stagnation.2 ⟨hk, (hblock _ _ (Nat.le_refl n)).mpr hu⟩
  · obtain ⟨i, hi, hu⟩ := h.longest.1
    refine ⟨⟨i, hi, (hblock _ _ hi).mp hu⟩, ?_⟩
    rintro k ⟨j, hj, hu⟩
    exact h.longest.2 ⟨j, hj, (hblock _ _ hj).mpr hu⟩

/-! ### One more step -/

theorem stagnation_of_changed (hn : changed n = true) :
    IsGreatest {k | k ≤ n + 1 ∧ Unchanged changed (n + 1 - k) (n + 1)} 0 := by
  refine ⟨⟨Nat.zero_le _, fun m him hmn => ?_⟩, ?_⟩
  · omega
  · rintro k ⟨hk, hunchanged⟩
    have := hunchanged.eq_of_changed hn (Nat.sub_le _ _)
    omega

theorem stagnation_of_unchanged (h : t.Counts changed better n) (hn : changed n = false) :
    IsGreatest {k | k ≤ n + 1 ∧ Unchanged changed (n + 1 - k) (n + 1)} (t.stagnation + 1) := by
  obtain ⟨⟨hle, hunchanged⟩, hgreatest⟩ := h.stagnation
  constructor
  · refine ⟨Nat.succ_le_succ hle, ?_⟩
    rw [Nat.add_sub_add_right]
    exact hunchanged.snoc hn
  · rintro (_ | k) ⟨hk, hunchanged'⟩
    · exact Nat.zero_le _
    · rw [Nat.add_sub_add_right] at hunchanged'
      exact Nat.succ_le_succ (hgreatest ⟨Nat.le_of_succ_le_succ hk,
        hunchanged'.mono (Nat.le_succ n)⟩)

theorem longest_of_changed (h : t.Counts changed better n) (hn : changed n = true) :
    IsGreatest {k | ∃ i, i + k ≤ n + 1 ∧ Unchanged changed i (i + k)} t.longestStagnation := by
  obtain ⟨⟨i, hi, hunchanged⟩, hgreatest⟩ := h.longest
  refine ⟨⟨i, Nat.le_succ_of_le hi, hunchanged⟩, ?_⟩
  rintro k ⟨j, hj, hunchanged'⟩
  rcases Nat.lt_or_eq_of_le hj with hj | hj
  · exact hgreatest ⟨j, Nat.le_of_lt_succ hj, hunchanged'⟩
  · rw [hj] at hunchanged'
    have := hunchanged'.eq_of_changed hn (by omega)
    omega

theorem longest_of_unchanged (h : t.Counts changed better n) (hn : changed n = false) :
    IsGreatest {k | ∃ i, i + k ≤ n + 1 ∧ Unchanged changed i (i + k)}
      (max t.longestStagnation (t.stagnation + 1)) := by
  have hend := h.stagnation_of_unchanged hn
  obtain ⟨⟨i, hi, hunchanged⟩, hgreatest⟩ := h.longest
  constructor
  · rcases Nat.le_total (t.stagnation + 1) t.longestStagnation with hle | hle
    · rw [Nat.max_eq_left hle]
      exact ⟨i, Nat.le_succ_of_le hi, hunchanged⟩
    · rw [Nat.max_eq_right hle]
      have hk := hend.1.1
      refine ⟨n + 1 - (t.stagnation + 1), by omega, ?_⟩
      rw [Nat.sub_add_cancel hk]
      exact hend.1.2
  · rintro k ⟨j, hj, hunchanged'⟩
    rcases Nat.lt_or_eq_of_le hj with hj | hj
    · exact Nat.le_trans (hgreatest ⟨j, Nat.le_of_lt_succ hj, hunchanged'⟩) (Nat.le_max_left _ _)
    · refine Nat.le_trans (hend.2 ⟨by omega, ?_⟩) (Nat.le_max_right _ _)
      rw [hj] at hunchanged'
      rwa [show n + 1 - k = j by omega]

/-- **One more move** counts as a step that changes something if it was accepted. -/
theorem add (h : t.Counts changed better n) :
    (t.add (better n) (changed n)).Counts changed better (n + 1) where
  accepted_eq := by
    rw [add_accepted, countP_range_succ, h.accepted_eq]
  improving_eq := by
    rw [add_improving, countP_range_succ, h.improving_eq]
  stagnation := by
    rw [add_stagnation]
    cases hn : changed n with
    | true => exact stagnation_of_changed hn
    | false => exact h.stagnation_of_unchanged hn
  longest := by
    rw [add_longestStagnation]
    cases hn : changed n with
    | true => exact h.longest_of_changed hn
    | false => exact h.longest_of_unchanged hn

/-! ### How the counts compare -/

theorem stagnation_le (h : t.Counts changed better n) : t.stagnation ≤ t.longestStagnation := by
  obtain ⟨hle, hunchanged⟩ := h.stagnation.1
  refine h.longest.2 ⟨n - t.stagnation, by omega, ?_⟩
  rwa [Nat.sub_add_cancel hle]

theorem accepted_le (h : t.Counts changed better n) : t.accepted ≤ n := by
  rw [h.accepted_eq]
  exact List.countP_le_length.trans_eq List.length_range

theorem improving_le (h : t.Counts changed better n)
    (hbetter : ∀ i < n, better i = true → changed i = true) : t.improving ≤ t.accepted := by
  rw [h.accepted_eq, h.improving_eq]
  exact List.countP_mono_left fun i hi => hbetter i (List.mem_range.mp hi)

/-- **What has stagnated was not accepted**: the changes lie outside the longest unchanged block. -/
theorem longest_le (h : t.Counts changed better n) : t.longestStagnation ≤ n - t.accepted := by
  obtain ⟨i, hi, hunchanged⟩ := h.longest.1
  have hblock : (List.range t.longestStagnation).countP (fun m => changed (i + m)) = 0 := by
    rw [List.countP_eq_zero]
    intro m hm
    have hlt := List.mem_range.mp hm
    simp [hunchanged (i + m) (by omega) (by omega)]
  obtain ⟨rest, rfl⟩ := Nat.exists_eq_add_of_le hi
  have hbefore : (List.range i).countP changed ≤ i :=
    List.countP_le_length.trans_eq List.length_range
  have hafter : (List.range rest).countP (fun m => changed (i + t.longestStagnation + m)) ≤ rest :=
    List.countP_le_length.trans_eq List.length_range
  have hsum := h.accepted_eq
  rw [List.range_add, List.range_add, List.countP_append, List.countP_append, List.countP_map,
    List.countP_map] at hsum
  simp only [Function.comp_def] at hsum
  omega

end Tally.Counts

end Steps

/-! ## The steps of the walk -/

section Walk

variable {F ρ σ : Type} [Scalar F] [WordSource ρ]

/-- **A move is accepted exactly if the assignment changes**, since the candidate is one flip
away. -/
theorem Trial.Legal.accepted_eq {o : Objective F} {p : Position F} {t : Trial F}
    (ht : t.Legal o p) (hp : p.Sound o) :
    t.accepted = decide ((t.next p).assignment ≠ p.assignment) := by
  have hv : t.move.var < p.assignment.size := by
    rw [hp.size_eq]
    exact ht.fits.var_lt
  have hne : t.candidate.assignment ≠ p.assignment := by
    rw [ht.candidate_eq]
    exact (differsAt_flip hv).ne
  unfold Trial.next
  cases t.accepted <;> simp [hne]

theorem Objective.counts_tallyAt (o : Objective F) (strategy : Strategy F) (s : Schedule F)
    (source : ρ) (n : Nat) :
    (o.tallyAt strategy s source n).Counts
      (fun i => decide ((o.visited strategy s source (i + 1)).assignment ≠
        (o.visited strategy s source i).assignment))
      (fun i => Scalar.lt ((o.tried strategy s source i).candidate.energy -
        (o.visited strategy s source i).energy) 0.0) n := by
  induction n with
  | zero => exact Tally.Counts.zero _ _
  | succ n ih =>
    have hlegal := o.tried_legal strategy s source n
    have haccepted := hlegal.accepted_eq (o.visited_sound strategy s source n)
    rw [← o.visited_succ strategy s source n] at haccepted
    simp only [tallyAt, hlegal.improving_eq, haccepted]
    exact ih.add

/-- **A move that improves changes the assignment**, as long as what is less is not more. -/
theorem Trial.Legal.next_ne [Scalar.LawfulLT F] {o : Objective F} {p : Position F} {t : Trial F}
    (ht : t.Legal o p) (hp : p.Sound o)
    (hless : Scalar.lt (t.candidate.energy - p.energy) 0.0 = true) :
    (t.next p).assignment ≠ p.assignment := by
  have haccepted := ht.accepted_of_le (Scalar.LawfulLT.le_of_lt hless)
  rw [ht.accepted_eq hp] at haccepted
  exact of_decide_eq_true haccepted

variable [TraceSink F σ] {o : Objective F} {strategy : Strategy F} {schedule : Schedule F}
  {source : ρ} {sink : Option σ} {r : RunResult F}

/-- The states of a search along the walk count its moves. -/
theorem Search.counts_tallyAt {s : Nat → Search F ρ σ} {n : Nat}
    (hwalk : ∀ i ≤ n, OnWalk o strategy schedule source sink i (s i)) :
    (o.tallyAt strategy schedule source n).Counts
      (fun i => decide ((s (i + 1)).position.assignment ≠ (s i).position.assignment))
      (fun i => Scalar.lt ((o.tried strategy schedule source i).candidate.energy -
        (s i).position.energy) 0.0) n := by
  refine (o.counts_tallyAt strategy schedule source n).congr ?_ ?_
  · intro i hi
    rw [(hwalk i (Nat.le_of_lt hi)).position_eq, (hwalk (i + 1) hi).position_eq]
  · intro i hi
    rw [(hwalk i (Nat.le_of_lt hi)).position_eq]

/-- **The counters of a search** that reports a result are determined by the states that it visits
and the candidates that it tries. A move is accepted exactly if the assignment changes, and a
candidate of less energy is always accepted. The stagnation is the length of the longest unchanged
block at the end, and the longest stagnation that of the longest unchanged block anywhere. -/
theorem anneal_counters [Scalar.LawfulLT F]
    (h : (anneal o strategy schedule source sink).outcome = .ok r) :
    ∃ (s : Nat → Search F ρ σ) (t : Nat → Trial F),
      Search.Itinerary o strategy schedule source sink r.iterations s ∧
      (∀ i < r.iterations,
        (o.attempt strategy (s i).temperature (s i).position).run (s i).source =
          .ok (t i) (s (i + 1)).source ∧
        o.Step (s i).position.assignment (t i).candidate.assignment
          (s (i + 1)).position.assignment ∧
        o.evaluate (s i).position.assignment = .ok (s i).position.toEvaluation ∧
        o.evaluate (t i).candidate.assignment = .ok (t i).candidate.toEvaluation) ∧
      r.tally.Counts
        (fun i => decide ((s (i + 1)).position.assignment ≠ (s i).position.assignment))
        (fun i => Scalar.lt ((t i).candidate.energy - (s i).position.energy) 0.0) r.iterations ∧
      (∀ i < r.iterations,
        Scalar.lt ((t i).candidate.energy - (s i).position.energy) 0.0 = true →
          (s (i + 1)).position.assignment ≠ (s i).position.assignment) ∧
      r.tally.improving ≤ r.tally.accepted ∧ r.tally.accepted ≤ r.iterations ∧
      r.tally.stagnation ≤ r.tally.longestStagnation ∧
      r.tally.longestStagnation ≤ r.iterations - r.tally.accepted := by
  obtain ⟨s, hs, hwalk, -, -⟩ := anneal_itinerary h
  obtain ⟨-, -, hreport, -⟩ := anneal_eq_report h
  have htally : r.tally = o.tallyAt strategy schedule source r.iterations := by
    rw [hreport]
    rfl
  have hcounts := Search.counts_tallyAt hwalk
  rw [← htally] at hcounts
  have himproves : ∀ i < r.iterations,
      Scalar.lt ((o.tried strategy schedule source i).candidate.energy - (s i).position.energy)
        0.0 = true → (s (i + 1)).position.assignment ≠ (s i).position.assignment := by
    intro i hi hless
    rw [(hwalk i (Nat.le_of_lt hi)).position_eq] at hless
    rw [(hwalk i (Nat.le_of_lt hi)).position_eq, (hwalk (i + 1) hi).position_eq, o.visited_succ]
    exact (o.tried_legal strategy schedule source i).next_ne
      (o.visited_sound strategy schedule source i) hless
  refine ⟨s, o.tried strategy schedule source, hs, ?_, hcounts, himproves, ?_, hcounts.accepted_le,
    hcounts.stagnation_le, hcounts.longest_le⟩
  · intro i hi
    have hlegal := o.tried_legal strategy schedule source i
    refine ⟨?_, ?_, (hwalk i (Nat.le_of_lt hi)).sound.evaluate_eq_ok, hlegal.sound.evaluate_eq_ok⟩
    · rw [(hwalk (i + 1) hi).source_eq]
      exact (hwalk i (Nat.le_of_lt hi)).run_attempt
    · rw [(hwalk i (Nat.le_of_lt hi)).position_eq, (hwalk (i + 1) hi).position_eq, o.visited_succ]
      exact hlegal.step (o.visited_sound strategy schedule source i)
  · refine hcounts.improving_le fun i hi hless => ?_
    exact decide_eq_true (himproves i hi hless)

end Walk

theorem pair_tally :
    (anneal pairObjective .noise pairSchedule allOnes
        (none : Option (RowLog Float))).outcome.toOption.map
      (fun r => (r.iterations, r.tally)) = some (2, ⟨2, 2, 0, 0⟩) := by
  decide +kernel

/-- Both moves of the pair repair a clause, so both change the assignment. -/
theorem anneal_counters_pair :
    ∃ (r : RunResult Float) (s : Nat → Search Float WordCycle (RowLog Float)),
      (anneal pairObjective .noise pairSchedule allOnes
        (none : Option (RowLog Float))).outcome = .ok r ∧ r.tally = ⟨2, 2, 0, 0⟩ ∧
      Search.Itinerary pairObjective .noise pairSchedule allOnes none 2 s ∧
      (List.range 2).countP (fun i =>
        decide ((s (i + 1)).position.assignment ≠ (s i).position.assignment)) = 2 := by
  obtain ⟨r, hr, hend⟩ := exists_ok_of_map pair_tally
  obtain ⟨hn, htally⟩ := Prod.mk.inj hend
  obtain ⟨s, t, hs, -, hcounts, -⟩ := anneal_counters hr
  have haccepted := hcounts.accepted_eq
  rw [hn] at hs haccepted
  rw [htally] at haccepted
  exact ⟨r, s, hr, htally, hs, haccepted.symm⟩

end WeightedSat
