/-!
# Counts

Counters, weights and announced numbers are sixty-four bits wide.  They are natural numbers here,
and the places where a wider one could arise say what becomes of it.

## Main definitions

* `maxCount`: the largest count.
* `saturate`: a number, cut at the largest count.
* `total`: the sum of a list of counts.
-/

namespace WeightedSat

/-- The largest count, one less than `2⁶⁴`. -/
def maxCount : Nat := 0xFFFFFFFFFFFFFFFF

/-- A number, cut at the largest count. -/
def saturate (n : Nat) : Nat := min n maxCount

theorem saturate_of_le {n : Nat} (h : n ≤ maxCount) : saturate n = n :=
  Nat.min_eq_left h

theorem saturate_le (n : Nat) : saturate n ≤ maxCount := Nat.min_le_right _ _

/-- What has been cut already may be cut again with the rest. -/
theorem saturate_saturate_add (m n : Nat) : saturate (saturate m + n) = saturate (m + n) := by
  rcases Nat.le_total m maxCount with h | h
  · rw [saturate_of_le h]
  · unfold saturate
    rw [Nat.min_eq_right h, Nat.min_eq_right (Nat.le_add_right _ _),
      Nat.min_eq_right (Nat.le_trans h (Nat.le_add_right _ _))]

/-- **Total**: the sum of a list of counts. -/
def total (ns : List Nat) : Nat := ns.foldr (· + ·) 0

@[simp] theorem total_nil : total [] = 0 := rfl

@[simp] theorem total_cons (n : Nat) (ns : List Nat) : total (n :: ns) = n + total ns := rfl

@[simp] theorem total_append (ms ns : List Nat) : total (ms ++ ns) = total ms + total ns := by
  induction ms with
  | nil => simp
  | cons m ms ih => simp [ih, Nat.add_assoc]

/-- No count of a list passes the sum of the list. -/
theorem le_total_of_mem {n : Nat} {ns : List Nat} (h : n ∈ ns) : n ≤ total ns := by
  induction ns with
  | nil => simp at h
  | cons m ns ih =>
    rcases List.mem_cons.1 h with rfl | h
    · exact Nat.le_add_right ..
    · exact Nat.le_trans (ih h) (Nat.le_add_left ..)

end WeightedSat
