import Mathlib.Data.Prod.Lex
import WeightedSat.Scalar

/-!
# Comparing scalars

The search assumes no law of its comparisons. Where one is needed, it is that the weak comparison
is transitive or that it follows from the strict one, and doubles have both: those that are numbers
are ordered by sign, exponent and mantissa, and what is not a number compares with nothing.

## Main definitions

* `Scalar.LawfulLE F`: the weak comparison is transitive
* `Scalar.LawfulLT F`: the weak comparison follows from the strict one
* `place`: where a double stands in the order

## Main results

* `le_iff_place`: doubles compare as their places do
* the instances `Scalar.LawfulLE Float` and `Scalar.LawfulLT Float`
-/

namespace WeightedSat

/-- **Lawful comparison**: the weak comparison of scalars is transitive. -/
class Scalar.LawfulLE (F : Type) [Scalar F] : Prop where
  le_trans {x y z : F} : Scalar.le x y = true → Scalar.le y z = true → Scalar.le x z = true

/-- **Lawful strict comparison**: what is less is not more. -/
class Scalar.LawfulLT (F : Type) [Scalar F] : Prop where
  le_of_lt {x y : F} : Scalar.lt x y = true → Scalar.le x y = true

open Float.Model (UnpackedFloat)

/-- **Place** of a double in the order: by sign and kind, then by exponent, then by mantissa. -/
def place : UnpackedFloat → Int ×ₗ Int ×ₗ Int
  | .infinity .negative => toLex (-2, toLex (0, 0))
  | .finite .negative m e _ => toLex (-1, toLex (-e, -m))
  | .zero _ | .notANumber => toLex (0, toLex (0, 0))
  | .finite .positive m e _ => toLex (1, toLex (e, m))
  | .infinity .positive => toLex (2, toLex (0, 0))

theorem isLE_compare_then {e e' : Int} {m m' : Nat} :
    ((compare e e').then (compare m m')).isLE = true ↔ e < e' ∨ e = e' ∧ m ≤ m' := by
  rw [Ordering.isLE_then_iff_or, compare_lt_iff_lt, compare_eq_iff_eq, ← compare_le_iff_le,
    Ordering.isLE_iff_ne_gt]

theorem isGE_compare_then {e e' : Int} {m m' : Nat} :
    ((compare e e').then (compare m m')).isGE = true ↔ e' < e ∨ e = e' ∧ m' ≤ m := by
  rw [@eq_comm _ e, ← isLE_compare_then, ← Ordering.isLE_swap, Ordering.swap_then,
    ← Std.OrientedOrd.eq_swap, ← Std.OrientedOrd.eq_swap]

theorem finite_ne {s : UnpackedFloat.Sign} {m : Nat} {e : Int} {hm : 0 < m} :
    UnpackedFloat.finite s m e hm ≠ .notANumber := nofun

/-- **Doubles compare as their places do**, unless one of them is not a number. -/
theorem le_iff_place {a b : UnpackedFloat} :
    a.le b = true ↔ a ≠ .notANumber ∧ b ≠ .notANumber ∧ place a ≤ place b := by
  -- Seven kinds with their signs on either side; only two finite numbers of one sign need more
  -- than the kind.
  obtain (_ | _) | _ | (_ | _) | ⟨_ | _, m, e, hm⟩ := a <;>
    obtain (_ | _) | _ | (_ | _) | ⟨_ | _, m', e', hm'⟩ := b <;>
    dsimp only [UnpackedFloat.le, UnpackedFloat.compare, place, ne_eq] <;>
    simp [↓finite_ne, Prod.Lex.toLex_le_toLex, isLE_compare_then, isGE_compare_then]
  all_goals rfl

theorem Scalar.le_float {x y : Float} :
    Scalar.le x y = true ↔ x.toModel.unpack.le y.toModel.unpack = true :=
  decide_eq_true_iff.trans decide_eq_true_iff

instance : Scalar.LawfulLE Float where
  le_trans := by
    intro x y z hxy hyz
    rw [Scalar.le_float, le_iff_place] at hxy hyz ⊢
    exact ⟨hxy.1, hyz.2.1, hxy.2.2.trans hyz.2.2⟩

theorem Scalar.lt_float {x y : Float} :
    Scalar.lt x y = true ↔ x.toModel.unpack.lt y.toModel.unpack = true :=
  decide_eq_true_iff.trans decide_eq_true_iff

/-- Two doubles of which one is less can be compared. -/
theorem le_of_lt_unpacked {a b : UnpackedFloat} (h : a.lt b = true) : a.le b = true := by
  unfold UnpackedFloat.lt at h
  unfold UnpackedFloat.le
  rw [beq_iff_eq.mp h]
  rfl

instance : Scalar.LawfulLT Float where
  le_of_lt h := Scalar.le_float.mpr (le_of_lt_unpacked (Scalar.lt_float.mp h))

end WeightedSat
