import WeightedSat.Count
import WeightedSat.Decimal.Shortest
import WeightedSat.Instance
import WeightedSat.Scalar

/-!
# Annealing schedules

A schedule starts at a temperature, multiplies it by a factor after each level, and ends at the
first temperature that is not above a minimum.  At each level it tries a fixed number of moves.

## Main definitions

* `Schedule F`, with `Schedule.check` for the conditions on its parameters, and
  `Schedule.Orderly` for those that meet them.
* `Schedule.cool`, `Schedule.frozen`: one step of cooling, and the end.
* `Schedule.coolingSteps`: the number of levels by the logarithms of the parameters.
* `Schedule.tuned`: the parameters that suit an instance.
* `Mode`: given parameters, or those that suit the instance.
-/

namespace WeightedSat

/-- **Schedule**: the parameters of geometric cooling. -/
structure Schedule (F : Type) where
  initialTemperature : F
  /-- The factor between one temperature and the next. -/
  alpha : F
  minTemperature : F
  /-- The number of moves tried at each temperature. -/
  iterationsPerTemperature : Nat
deriving DecidableEq, Repr

/-- **Schedule error**: a condition that the parameters violate. -/
inductive ScheduleError (F : Type)
  | minTemperatureNotPositive
  | initialTemperatureNotFinite
  | initialTemperatureTooLow
  | alphaOutOfRange (alpha : F)
  | noIterations
deriving DecidableEq, Repr

/-- The text for a violated condition. -/
def ScheduleError.message : ScheduleError Float → String
  | .minTemperatureNotPositive => "min_temperature must be positive"
  | .initialTemperatureNotFinite => "initial_temperature must be finite"
  | .initialTemperatureTooLow => "initial_temperature must be greater than min_temperature"
  | .alphaOutOfRange alpha => "alpha must be in (0, 1), got " ++ Decimal.shortestText alpha
  | .noIterations => "iterations_per_temperature must be positive"

namespace Schedule

variable {F : Type}

/-- Whether enough moves have been tried at a temperature. -/
def equilibrium (s : Schedule F) (tried : Nat) : Bool := s.iterationsPerTemperature ≤ tried

variable [Scalar F]

/-- The schedule from which parameters that are not given are taken. -/
def standard : Schedule F where
  initialTemperature := 100.0
  alpha := 0.99
  minTemperature := 0.1
  iterationsPerTemperature := 100

/-- The conditions on the parameters, in the order in which they are looked at: the minimum is a
positive number, the start is a number above it, the factor lies strictly between zero and one,
and some moves are tried. -/
def check (s : Schedule F) : Except (ScheduleError F) Unit :=
  if !Scalar.isFinite s.minTemperature || Scalar.le s.minTemperature 0.0 then
    .error .minTemperatureNotPositive
  else if !Scalar.isFinite s.initialTemperature then .error .initialTemperatureNotFinite
  else if Scalar.le s.initialTemperature s.minTemperature then .error .initialTemperatureTooLow
  else if !Scalar.isFinite s.alpha || Scalar.le s.alpha 0.0 || Scalar.le 1.0 s.alpha then
    .error (.alphaOutOfRange s.alpha)
  else if s.iterationsPerTemperature = 0 then .error .noIterations
  else .ok ()

/-- **Orderly schedule**: no condition on the parameters is violated. -/
structure Orderly (s : Schedule F) : Prop where
  minTemperature_finite : Scalar.isFinite s.minTemperature = true
  minTemperature_positive : Scalar.le s.minTemperature 0.0 = false
  initialTemperature_finite : Scalar.isFinite s.initialTemperature = true
  initialTemperature_above : Scalar.le s.initialTemperature s.minTemperature = false
  alpha_finite : Scalar.isFinite s.alpha = true
  alpha_positive : Scalar.le s.alpha 0.0 = false
  alpha_below_one : Scalar.le 1.0 s.alpha = false
  iterations_ne_zero : s.iterationsPerTemperature ≠ 0

theorem check_eq_ok_iff (s : Schedule F) : s.check = .ok () ↔ s.Orderly := by
  constructor
  · intro h
    unfold check at h
    repeat' split at h
    all_goals cases h
    constructor <;> simp_all
  · intro h
    simp [check, h.minTemperature_finite, h.minTemperature_positive, h.initialTemperature_finite,
      h.initialTemperature_above, h.alpha_finite, h.alpha_positive, h.alpha_below_one,
      h.iterations_ne_zero]

/-- Parameters in order try some moves at each temperature. -/
theorem iterationsPerTemperature_ne_zero (s : Schedule F) (h : s.check = .ok ()) :
    s.iterationsPerTemperature ≠ 0 :=
  (s.check_eq_ok_iff.mp h).iterations_ne_zero

/-- One step of cooling. -/
def cool (s : Schedule F) (temperature : F) : F := temperature * s.alpha

/-- The temperature after `n` steps of cooling. -/
def coolTimes (s : Schedule F) : Nat → F → F
  | 0, t => t
  | n + 1, t => s.coolTimes n (s.cool t)

/-- The last of several steps of cooling comes after the others. -/
theorem coolTimes_succ (s : Schedule F) (n : Nat) (t : F) :
    s.coolTimes (n + 1) t = s.cool (s.coolTimes n t) := by
  induction n generalizing t with
  | zero => rfl
  | succ n ih => exact ih (s.cool t)

/-- The temperature at which the move of a given number is tried, from zero on. -/
def temperatureAt (s : Schedule F) (i : Nat) : F :=
  s.coolTimes (i / s.iterationsPerTemperature) s.initialTemperature

/-- Whether the schedule ends at a temperature. -/
def frozen (s : Schedule F) (temperature : F) : Bool := Scalar.le temperature s.minTemperature

/-- The number of temperatures above the minimum, from logarithms; zero if that is no positive
number. -/
def coolingSteps (s : Schedule F) : Nat :=
  let steps := (Scalar.ln s.minTemperature - Scalar.ln s.initialTemperature) / Scalar.ln s.alpha
  if Scalar.isFinite steps && Scalar.lt 0.0 steps then Scalar.ceilCount steps else 0

/-- A bound on successive rejections: half of all moves, and at least a hundred per variable.  It
is reported and has no effect on the search. -/
def stagnationBound (s : Schedule F) (numVars : Nat) : Nat :=
  max (saturate (s.coolingSteps * s.iterationsPerTemperature) / 2) (saturate (numVars * 100))

/-- The schedule that suits an instance.  A move that costs one clause and one average weight is
to be accepted with probability `0.9` at the start and `0.0001` at the end, and there are three
moves per variable at each temperature. -/
def tuned (inst : Instance) : Schedule F :=
  let numVars := max inst.numVars 1
  let count : F := Scalar.ofCount numVars
  let base : F := Scalar.ofCount inst.totalWeight
  let average := base / count
  let scale := if Scalar.lt 0.0 average then base / average + 1.0 else count + 1.0
  { initialTemperature := -scale / Scalar.ln 0.9
    alpha := 0.99
    minTemperature := -scale / Scalar.ln 0.0001
    iterationsPerTemperature := 3 * numVars }

end Schedule

/-- **Mode**: how the parameters of a search are chosen. -/
inductive Mode (F : Type)
  /-- As given. -/
  | explicit (s : Schedule F)
  /-- From the instance. -/
  | auto
deriving DecidableEq, Repr

/-- The schedule that a mode chooses for an instance. -/
def Mode.resolve {F : Type} [Scalar F] (inst : Instance) : Mode F → Schedule F
  | .explicit s => s
  | .auto => Schedule.tuned inst

end WeightedSat
