import WeightedSat.Instance

/-!
# The weight of an assignment

The weight of an assignment is the sum of the weights of the variables that it sets. No assignment
weighs more than the one that sets every variable, whose weight is a count; so the sum never leaves
the range of counts, neither at its end nor on the way. The full weight is reached once every
variable is set that has weight at all.

## Main definitions

* `Instance.setWeights inst a`: the weights of the variables that an assignment sets
* `checkedSum n ws`: a sum that faults once it leaves the range of counts

## Main results

* `Instance.total_setWeights`, `Instance.weightOf_le`: what the sum is, and its largest value
* `Instance.weightOf_eq_totalWeight_iff`: where it is the largest
* `Instance.checkedSum_setWeights`: it stays in range
-/

namespace WeightedSat

/-- **Checked sum**: a list added to a count from the left, and a fault as soon as this leaves the
range of counts. -/
def checkedSum (n : Nat) : List Nat → Except Fault Nat
  | [] => .ok n
  | w :: ws => if n + w ≤ maxCount then checkedSum (n + w) ws else .error .addOverflow

theorem checkedSum_eq_ok {n : Nat} {ws : List Nat} (h : n + total ws ≤ maxCount) :
    checkedSum n ws = .ok (n + total ws) := by
  induction ws generalizing n with
  | nil => rfl
  | cons w ws ih =>
    rw [total_cons] at h ⊢
    rw [checkedSum, if_pos (by omega), ih (by omega), Nat.add_assoc]

/-! ## Picking from a list -/

/-- Some of the counts of a list sum to no more than all of them. -/
theorem total_zipWith_le (ws : List Nat) (bs : List Bool) :
    total (List.zipWith (fun w b => if b then w else 0) ws bs) ≤ total ws := by
  induction ws generalizing bs with
  | nil => simp
  | cons w ws ih =>
    rcases bs with - | ⟨b, bs⟩
    · simp
    · have hrest := ih bs
      cases b <;> simp <;> omega

/-- **Some of the counts of a list sum to all of them** exactly if every positive one is picked. -/
theorem total_zipWith_eq_iff {ws : List Nat} {bs : List Bool} (h : ws.length ≤ bs.length) :
    total (List.zipWith (fun w b => if b then w else 0) ws bs) = total ws ↔
      ∀ (v w : Nat), ws[v]? = some w → 0 < w → bs[v]? = some true := by
  -- Induction on the counts: neither the first one nor the others make up for what is left out.
  induction ws generalizing bs with
  | nil => simp
  | cons w ws ih =>
    rcases bs with - | ⟨b, bs⟩
    · cases h
    have hrest := total_zipWith_le ws bs
    have hsplit : total (List.zipWith (fun w b => if b then w else 0) (w :: ws) (b :: bs)) =
        total (w :: ws) ↔ (0 < w → b = true) ∧
          total (List.zipWith (fun w b => if b then w else 0) ws bs) = total ws := by
      cases b
      · simp
        omega
      · simp
    rw [hsplit, ih (Nat.le_of_succ_le_succ h)]
    constructor
    · rintro ⟨hfirst, hothers⟩ (_ | v) x hx hpos
      · obtain rfl : w = x := Option.some.inj hx
        exact congrArg some (hfirst hpos)
      · exact hothers v x hx hpos
    · intro hall
      exact ⟨fun hpos => Option.some.inj (hall 0 w rfl hpos),
        fun v x hx hpos => hall (v + 1) x hx hpos⟩

/-! ## Instances -/

namespace Instance

variable (inst : Instance) (a : Assignment)

/-- The weights of the variables that an assignment sets, in order. -/
def setWeights : List Nat := ((inst.weights.zip a.toList).filter (·.2)).map (·.1)

theorem total_setWeights : total (inst.setWeights a) = inst.weightOf a := by
  unfold setWeights weightOf
  generalize a.toList = bs
  induction inst.weights generalizing bs with
  | nil => rfl
  | cons w ws ih =>
    rcases bs with - | ⟨b, bs⟩
    · rfl
    · cases b <;> simp [ih bs]

/-- **No assignment weighs more** than the one that sets every variable. -/
theorem weightOf_le : inst.weightOf a ≤ inst.totalWeight :=
  total_zipWith_le inst.weights a.toList

/-- **The full weight** is that of the assignments that set every variable with weight. -/
theorem weightOf_eq_totalWeight_iff {a : Assignment} (ha : inst.numVars ≤ a.size) :
    inst.weightOf a = inst.totalWeight ↔
      ∀ v w, inst.weight v = .ok w → 0 < w → a[v]? = some true := by
  have hlen : inst.weights.length ≤ a.toList.length := by
    rwa [inst.length_weights, Array.length_toList]
  simp only [weight, fetch_eq_ok_iff, ← Array.getElem?_toList]
  exact total_zipWith_eq_iff hlen

/-- An instance with weight has variables. -/
theorem numVars_ne_zero_of_totalWeight {inst : Instance} (hweight : inst.totalWeight ≠ 0) :
    inst.numVars ≠ 0 := by
  intro hzero
  have hnil : inst.weights = [] := by
    rw [← List.length_eq_zero_iff, inst.length_weights, hzero]
  apply hweight
  rw [totalWeight, hnil, total_nil]

theorem weightOf_le_maxCount : inst.weightOf a ≤ maxCount :=
  Nat.le_trans (inst.weightOf_le a) inst.total_weights_le

/-- **The weight is summed in range.** -/
theorem checkedSum_setWeights : checkedSum 0 (inst.setWeights a) = .ok (inst.weightOf a) := by
  have hrange : 0 + total (inst.setWeights a) ≤ maxCount := by
    rw [Nat.zero_add, total_setWeights]
    exact inst.weightOf_le_maxCount a
  rw [checkedSum_eq_ok hrange, Nat.zero_add, total_setWeights]

end Instance

end WeightedSat
