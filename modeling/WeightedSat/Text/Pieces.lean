/-!
# Pieces of a sequence

Cutting a sequence at its separators.  A sequence with `n` separators has `n + 1` pieces, some of
which may be empty; the separators themselves are dropped.

## Main statements

* `pieces_append_cons`: cutting at one separator cuts the two sides on their own.
* `pieces_of_forall`: a sequence without separators is one piece.
-/

namespace WeightedSat.Text

variable {α : Type}

/-- Puts an element in front of the first piece. -/
def extend (x : α) : List (List α) → List (List α)
  | [] => [[x]]
  | p :: ps => (x :: p) :: ps

/-- **Pieces**: the parts of a sequence between its separators, in order. -/
def pieces (sep : α → Bool) (xs : List α) : List (List α) :=
  xs.foldr (fun x ps => if sep x then [] :: ps else extend x ps) [[]]

variable {sep : α → Bool}

@[simp] theorem pieces_nil : pieces sep [] = [[]] := rfl

@[simp] theorem pieces_cons (x : α) (xs : List α) :
    pieces sep (x :: xs) = if sep x then [] :: pieces sep xs else extend x (pieces sep xs) := rfl

theorem pieces_ne_nil (xs : List α) : pieces sep xs ≠ [] := by
  cases xs with
  | nil => simp
  | cons x xs =>
    rw [pieces_cons]
    split
    · simp
    · cases pieces sep xs <;> simp [extend]

theorem extend_append (x : α) {ps : List (List α)} (h : ps ≠ []) (qs : List (List α)) :
    extend x (ps ++ qs) = extend x ps ++ qs := by
  cases ps with
  | nil => exact absurd rfl h
  | cons p ps => rfl

/-- A separator cuts a sequence into two, each cut on its own. -/
theorem pieces_append_cons (xs : List α) {s : α} (hs : sep s = true) (ys : List α) :
    pieces sep (xs ++ s :: ys) = pieces sep xs ++ pieces sep ys := by
  induction xs with
  | nil => simp [hs]
  | cons x xs ih =>
    simp only [List.cons_append, pieces_cons, ih]
    split
    · rfl
    · exact extend_append x (pieces_ne_nil xs) _

/-- A sequence without separators is one piece. -/
theorem pieces_of_forall {xs : List α} (h : ∀ x ∈ xs, sep x = false) : pieces sep xs = [xs] := by
  induction xs with
  | nil => rfl
  | cons x xs ih =>
    simp [h x (by simp), ih fun y hy => h y (List.mem_cons_of_mem _ hy), extend]

end WeightedSat.Text
