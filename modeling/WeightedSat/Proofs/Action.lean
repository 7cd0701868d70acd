import WeightedSat.Random.Source

/-!
# Actions that succeed

An action on a state ends with a value or fails. `Succeeds x s Q` says that it ends with a value,
and what holds of the value and of the state that remains. The random choices of the search are
such actions: each has one law of this form, and the laws of larger actions are chained from those
of their parts.

Two actions that start from the same state may go alongside each other: both succeed, they leave the
same state behind, and their values are related. What is said of two searches at once is chained
from this in the same way.

## Main definitions

* `Succeeds x s Q`: the action `x` succeeds from `s`, with the postcondition `Q`
* `ending h`: the value and the state of an action that succeeds
* `Alongside x y s R`: the actions `x` and `y` go alongside each other from `s`

## Main results

* `Succeeds.bind`, `Alongside.bind`: one action after the other
* `run_bind_eq_ok`: what a sequence that succeeded has done
* `succeeds_below`, `succeeds_unit`, `succeeds_coin`: drawing never fails, and a number drawn below
  `n` is below `n`
-/

namespace WeightedSat

section Laws

variable {ε σ α β : Type}

/-- **Success**: the action ends with a value, and `Q` holds of the value and of the state that
remains. -/
def Succeeds (x : EStateM ε σ α) (s : σ) (Q : α → σ → Prop) : Prop :=
  ∃ a t, x.run s = .ok a t ∧ Q a t

variable {x : EStateM ε σ α} {f : α → EStateM ε σ β} {s t : σ} {Q : α → σ → Prop}
  {R : β → σ → Prop}

theorem Succeeds.pure {a : α} (h : Q a s) : Succeeds (pure a : EStateM ε σ α) s Q :=
  ⟨a, s, rfl, h⟩

theorem Succeeds.ofExcept {y : Except ε α} {a : α} (hy : y = .ok a) (h : Q a s) :
    Succeeds (MonadExcept.ofExcept y : EStateM ε σ α) s Q := by
  subst hy
  exact ⟨a, s, rfl, h⟩

theorem Succeeds.exists_ok (hx : Succeeds x s Q) : ∃ a t, x.run s = .ok a t := by
  obtain ⟨a, t, hrun, -⟩ := hx
  exact ⟨a, t, hrun⟩

theorem Succeeds.of_run (hx : Succeeds x s Q) {a : α} (h : x.run s = .ok a t) : Q a t := by
  obtain ⟨b, u, hrun, hq⟩ := hx
  obtain ⟨rfl, rfl⟩ := EStateM.Result.ok.inj (h.symm.trans hrun)
  exact hq

theorem Succeeds.mono {Q' : α → σ → Prop} (hx : Succeeds x s Q) (h : ∀ a t, Q a t → Q' a t) :
    Succeeds x s Q' := by
  obtain ⟨a, t, hrun, hq⟩ := hx
  exact ⟨a, t, hrun, h a t hq⟩

/-- **One action after the other**: the second starts where the first ends. -/
theorem Succeeds.bind (hx : Succeeds x s Q) (hf : ∀ a t, Q a t → Succeeds (f a) t R) :
    Succeeds (x >>= f) s R := by
  obtain ⟨a, t, hrun, hq⟩ := hx
  obtain ⟨b, u, hrun', hr⟩ := hf a t hq
  refine ⟨b, u, ?_, hr⟩
  rw [EStateM.run_bind, hrun]
  exact hrun'

/-- The value of an action that succeeds, with the state that remains. -/
def ending {r : EStateM.Result ε σ α} (h : ∃ a t, r = .ok a t) : α × σ :=
  match r, h with
  | .ok a t, _ => (a, t)
  | .error _ _, h => absurd h (by simp)

theorem eq_ok_ending {r : EStateM.Result ε σ α} (h : ∃ a t, r = .ok a t) :
    r = .ok (ending h).1 (ending h).2 := by
  obtain ⟨a, t, rfl⟩ := h
  rfl

theorem run_bind_of_ok {a : α} (h : x.run s = .ok a t) : (x >>= f).run s = (f a).run t := by
  rw [EStateM.run_bind, h]

theorem run_ofExcept {y : Except ε α} {a : α} (hy : y = .ok a) :
    (MonadExcept.ofExcept y : EStateM ε σ α).run s = .ok a s := by
  subst hy
  rfl

theorem run_bind_eq_ok {b : β} (h : (x >>= f).run s = .ok b t) :
    ∃ a u, x.run s = .ok a u ∧ (f a).run u = .ok b t := by
  rw [EStateM.run_bind] at h
  split at h
  · next a u hx => exact ⟨a, u, hx, h⟩
  · cases h

/-! ## Two actions -/

/-- **Alongside**: both actions end with a value and leave the same state, and `R` relates their
values. -/
def Alongside {γ : Type} (x : EStateM ε σ α) (y : EStateM ε σ γ) (s : σ) (R : α → γ → Prop) :
    Prop :=
  ∃ a c t, x.run s = .ok a t ∧ y.run s = .ok c t ∧ R a c

section Alongside

variable {γ δ : Type} {y : EStateM ε σ γ} {g : γ → EStateM ε σ δ} {R : α → γ → Prop}
  {S : β → δ → Prop}

theorem Alongside.pure {a : α} {c : γ} (h : R a c) :
    Alongside (pure a : EStateM ε σ α) (pure c) s R :=
  ⟨a, c, s, rfl, rfl, h⟩

theorem Alongside.ofExcept {u : Except ε α} {v : Except ε γ} {a : α} {c : γ} (hu : u = .ok a)
    (hv : v = .ok c) :
    Alongside (MonadExcept.ofExcept u : EStateM ε σ α) (MonadExcept.ofExcept v) s
      fun a' c' => a' = a ∧ c' = c :=
  ⟨a, c, s, run_ofExcept hu, run_ofExcept hv, rfl, rfl⟩

/-- An action goes alongside itself. -/
theorem Alongside.refl {P : α → Prop} (hx : Succeeds x s fun a _ => P a) :
    Alongside x x s fun a b => P a ∧ b = a := by
  obtain ⟨a, t, hrun, hp⟩ := hx
  exact ⟨a, a, t, hrun, hrun, hp, rfl⟩

theorem Alongside.and_left {P : α → Prop} (h : Alongside x y s R)
    (hx : Succeeds x s fun a _ => P a) : Alongside x y s fun a c => P a ∧ R a c := by
  obtain ⟨a, c, t, hrun, hrun', hr⟩ := h
  exact ⟨a, c, t, hrun, hrun', hx.of_run hrun, hr⟩

/-- **One action after the other**, on both sides. -/
theorem Alongside.bind (h : Alongside x y s R)
    (hfg : ∀ a c t, R a c → Alongside (f a) (g c) t S) : Alongside (x >>= f) (y >>= g) s S := by
  obtain ⟨a, c, t, hrun, hrun', hr⟩ := h
  obtain ⟨b, d, u, hrest, hrest', hs⟩ := hfg a c t hr
  exact ⟨b, d, u, (run_bind_of_ok hrun).trans hrest, (run_bind_of_ok hrun').trans hrest', hs⟩

theorem Alongside.of_run (h : Alongside x y s R) {a : α} {c : γ} {t u : σ}
    (hx : x.run s = .ok a t) (hy : y.run s = .ok c u) : R a c ∧ u = t := by
  obtain ⟨a', c', t', hrun, hrun', hr⟩ := h
  obtain ⟨rfl, rfl⟩ := EStateM.Result.ok.inj (hrun.symm.trans hx)
  obtain ⟨rfl, rfl⟩ := EStateM.Result.ok.inj (hrun'.symm.trans hy)
  exact ⟨hr, rfl⟩

end Alongside

theorem exists_ok_of_map {y : Except ε α} {g : α → β} {b : β}
    (h : y.toOption.map g = some b) : ∃ a, y = .ok a ∧ g a = b := by
  cases y with
  | error e => cases h
  | ok a => exact ⟨a, rfl, Option.some.inj h⟩

end Laws

/-! ## Sampling -/

namespace WordSource

variable {ρ ε F : Type}

/-- The high half of a product stays below the bound even with a carry: the two products together
are less than `m * n`. -/
theorem high_add_carry_lt {m n w w' : Nat} (hn : n ≠ 0) (hw : w < m) (hw' : w' < m)
    (hc : m ≤ w * n % m + w' * n / m) : w * n / m + 1 < n := by
  -- The carry is paid for by the rest of the first product and the high half of the second.
  have hlow : w' * n / m < n := Nat.div_lt_of_lt_mul (Nat.mul_lt_mul_of_pos_right hw' (by omega))
  have hsplit : m * (w * n / m) + w * n % m = w * n := Nat.div_add_mod (w * n) m
  have hhigh : w * n + n ≤ m * n := by
    rw [← Nat.succ_mul]
    exact Nat.mul_le_mul_right n hw
  have hlt : m * (w * n / m + 1) < m * n := by
    rw [Nat.mul_add, Nat.mul_one]
    omega
  exact Nat.lt_of_mul_lt_mul_left hlt

theorem succeeds_scaled {m n : Nat} {word : EStateM ε ρ Nat} (hn : n ≠ 0)
    (hword : ∀ s, Succeeds word s fun w _ => w < m) (s : ρ) :
    Succeeds (scaled m word n) s fun k _ => k < n := by
  refine (hword s).bind fun w t hw => ?_
  have hhigh : w * n / m < n := Nat.div_lt_of_lt_mul (Nat.mul_lt_mul_of_pos_right hw (by omega))
  dsimp only
  split
  · refine (hword t).bind fun w' u hw' => Succeeds.pure ?_
    split
    · next hc => exact high_add_carry_lt hn hw hw' hc
    · exact hhigh
  · exact Succeeds.pure hhigh

variable [WordSource ρ]

theorem succeeds_word32 (s : ρ) :
    Succeeds (word32 : EStateM ε ρ Nat) s fun w _ => w < 0x100000000 :=
  ⟨_, _, rfl, (next32 s).1.toNat_lt⟩

theorem succeeds_word64 (s : ρ) :
    Succeeds (word64 : EStateM ε ρ Nat) s fun w _ => w < 0x10000000000000000 :=
  ⟨_, _, rfl, (next64 s).1.toNat_lt⟩

/-- **Drawing below a bound** that is not zero yields a number below it. -/
theorem succeeds_below {n : Nat} (hn : n ≠ 0) (s : ρ) :
    Succeeds (below n) s fun k _ => k < n := by
  unfold below
  rw [if_neg hn]
  split
  · exact succeeds_scaled hn succeeds_word32 s
  · exact succeeds_scaled hn succeeds_word64 s

theorem succeeds_unit [Scalar F] (s : ρ) :
    Succeeds (unit : EStateM ε ρ F) s fun _ _ => True :=
  (succeeds_word64 s).bind fun _ _ _ => Succeeds.pure trivial

theorem succeeds_coin (s : ρ) : Succeeds (coin : EStateM ε ρ Bool) s fun _ _ => True :=
  (succeeds_word64 s).bind fun _ _ _ => Succeeds.pure trivial

end WordSource

end WeightedSat
