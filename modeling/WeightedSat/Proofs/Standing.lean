import WeightedSat.Standing

/-!
# The first unbeaten standing

Beating is a strict weak order: it is transitive, and so is not being beaten. In a sequence of
standings there is therefore a first one that none of the others beats, and whoever keeps one
standing and replaces it exactly by those that beat it holds that one after every prefix.

## Main definitions

* `Standing.Supersedes s t`: `s` is `t` or beats it
* `FirstUnbeaten s n k`: `s k` is the first of `s 0, …, s n` that none of them beats

## Main results

* `Standing.not_beats_trans`: what does not beat what does not beat does not beat
* `Standing.Supersedes.unsatisfied_le`, `Standing.Supersedes.weight_eq`,
  `Standing.Supersedes.weight_le`: how a standing that supersedes another compares with it
* `FirstUnbeaten.succ_of_beats`, `FirstUnbeaten.succ_of_not_beats`: one more standing
* `FirstUnbeaten.unsatisfied_le`, `FirstUnbeaten.weight_le`: it has the fewest unsatisfied clauses,
  and the most weight if these are none
-/

namespace WeightedSat

namespace Standing

variable {s t u : Standing}

theorem not_beats_iff :
    ¬ s.beats t ↔
      t.unsatisfied ≤ s.unsatisfied ∧
        (s.unsatisfied = 0 → t.unsatisfied = 0 → s.weight ≤ t.weight) := by
  rw [beats_iff]
  omega

theorem not_beats_self (s : Standing) : ¬ s.beats s :=
  not_beats_iff.mpr ⟨Nat.le_refl _, fun _ _ => Nat.le_refl _⟩

theorem beats_trans (h : s.beats t) (h' : t.beats u) : s.beats u := by
  rw [beats_iff] at *
  omega

/-- **Not being beaten is transitive**: this is what makes ties harmless. -/
theorem not_beats_trans (h : ¬ s.beats t) (h' : ¬ t.beats u) : ¬ s.beats u := by
  rw [not_beats_iff] at *
  omega

theorem not_beats_of_beats (h : s.beats t) : ¬ t.beats s := fun h' =>
  not_beats_self s (beats_trans h h')

/-- **Superseding**: the standing is the other one or beats it. -/
def Supersedes (s t : Standing) : Prop := s = t ∨ s.beats t

namespace Supersedes

theorem refl (s : Standing) : s.Supersedes s := .inl rfl

theorem trans (h : s.Supersedes t) (h' : t.Supersedes u) : s.Supersedes u := by
  rcases h with rfl | h
  · exact h'
  · rcases h' with rfl | h'
    · exact .inr h
    · exact .inr (beats_trans h h')

theorem unsatisfied_le (h : s.Supersedes t) : s.unsatisfied ≤ t.unsatisfied := by
  rcases h with rfl | h
  · exact Nat.le_refl _
  · rw [beats_iff] at h
    omega

/-- With the same clauses unsatisfied, one at least, there is no way to beat but to be the same. -/
theorem weight_eq (h : s.Supersedes t) (heq : s.unsatisfied = t.unsatisfied)
    (hne : t.unsatisfied ≠ 0) : s.weight = t.weight := by
  rcases h with rfl | h
  · rfl
  · rw [beats_iff] at h
    omega

theorem weight_le (h : s.Supersedes t) (hzero : t.unsatisfied = 0) : t.weight ≤ s.weight := by
  rcases h with rfl | h
  · exact Nat.le_refl _
  · rw [beats_iff] at h
    omega

end Supersedes

end Standing

/-- **First unbeaten**: `s k` is the first of the standings `s 0, …, s n` that none of them
beats. -/
structure FirstUnbeaten (s : Nat → Standing) (n k : Nat) : Prop where
  le : k ≤ n
  not_beats : ∀ j ≤ n, ¬ (s j).beats (s k)
  beaten : ∀ i < k, ∃ j ≤ n, (s j).beats (s i)

namespace FirstUnbeaten

variable {s : Nat → Standing} {n k : Nat}

theorem zero (s : Nat → Standing) : FirstUnbeaten s 0 0 where
  le := Nat.le_refl 0
  not_beats j hj := by
    obtain rfl : j = 0 := by omega
    exact Standing.not_beats_self _
  beaten i hi := absurd hi (Nat.not_lt_zero i)

/-- A standing that beats the first unbeaten one takes its place. -/
theorem succ_of_beats (h : FirstUnbeaten s n k) (hb : (s (n + 1)).beats (s k)) :
    FirstUnbeaten s (n + 1) (n + 1) where
  le := Nat.le_refl _
  not_beats j hj := by
    rcases Nat.lt_or_eq_of_le hj with hj | rfl
    · exact Standing.not_beats_trans (h.not_beats j (by omega)) (Standing.not_beats_of_beats hb)
    · exact Standing.not_beats_self _
  beaten i hi := by
    -- An earlier standing that the new one left unbeaten would beat the old one, by transitivity.
    have hik : ¬ (s i).beats (s k) := h.not_beats i (by omega)
    refine ⟨n + 1, Nat.le_refl _, Decidable.byContradiction fun hni => ?_⟩
    exact Standing.not_beats_trans hni hik hb

theorem succ_of_not_beats (h : FirstUnbeaten s n k) (hb : ¬ (s (n + 1)).beats (s k)) :
    FirstUnbeaten s (n + 1) k where
  le := Nat.le_succ_of_le h.le
  not_beats j hj := by
    rcases Nat.lt_or_eq_of_le hj with hj | rfl
    · exact h.not_beats j (by omega)
    · exact hb
  beaten i hi := by
    obtain ⟨j, hj, hji⟩ := h.beaten i hi
    exact ⟨j, Nat.le_succ_of_le hj, hji⟩

theorem congr {t : Nat → Standing} (h : FirstUnbeaten s n k) (hst : ∀ i ≤ n, s i = t i) :
    FirstUnbeaten t n k where
  le := h.le
  not_beats j hj := by
    rw [← hst j hj, ← hst k h.le]
    exact h.not_beats j hj
  beaten i hi := by
    obtain ⟨j, hj, hji⟩ := h.beaten i hi
    refine ⟨j, hj, ?_⟩
    rw [← hst j hj, ← hst i (Nat.le_trans (Nat.le_of_lt hi) h.le)]
    exact hji

/-- There is only one first unbeaten standing. -/
theorem unique {k' : Nat} (h : FirstUnbeaten s n k) (h' : FirstUnbeaten s n k') : k = k' := by
  rcases Nat.lt_trichotomy k k' with hlt | heq | hlt
  · obtain ⟨j, hj, hbeats⟩ := h'.beaten k hlt
    exact absurd hbeats (h.not_beats j hj)
  · exact heq
  · obtain ⟨j, hj, hbeats⟩ := h.beaten k' hlt
    exact absurd hbeats (h'.not_beats j hj)

theorem unsatisfied_le (h : FirstUnbeaten s n k) {j : Nat} (hj : j ≤ n) :
    (s k).unsatisfied ≤ (s j).unsatisfied :=
  (Standing.not_beats_iff.mp (h.not_beats j hj)).1

theorem weight_le (h : FirstUnbeaten s n k) (hk : (s k).unsatisfied = 0) {j : Nat} (hj : j ≤ n)
    (hj₀ : (s j).unsatisfied = 0) : (s j).weight ≤ (s k).weight :=
  (Standing.not_beats_iff.mp (h.not_beats j hj)).2 hj₀ hk

end FirstUnbeaten

end WeightedSat
