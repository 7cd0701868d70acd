/-!
# Faults and failures

A run of the program ends in one of three ways: with a value, with an error of the domain that
the caller may handle, or with a *fault*, which aborts whatever was going on.  Faults are the
conditions that no caller is expected to meet: an index past the end of an assignment, a machine
counter that leaves its range, a draw from an empty range, a table too large to allocate.

## Main definitions

* `Fault`: the causes of an abort, with `Fault.message`.
* `Failure ε`: a fault, or an error of type `ε`.
* `fetch`: the element at a position, or a fault.
-/

namespace WeightedSat

/-- A cause for which the program aborts. -/
inductive Fault
  /-- Position `index` of a sequence of `length` elements was asked for. -/
  | indexOutOfBounds (length index : Nat)
  /-- A difference of counts fell below zero. -/
  | subtractOverflow
  /-- A counter passed its largest value. -/
  | addOverflow
  /-- A number was to be drawn from an empty range. -/
  | emptyRange
  /-- A table was requested that no address space can hold. -/
  | capacityOverflow
deriving DecidableEq, Repr

/-- The text that a fault leaves behind. -/
def Fault.message : Fault → String
  | .indexOutOfBounds length index =>
    "index out of bounds: the len is " ++ toString length ++ " but the index is " ++ toString index
  | .subtractOverflow => "attempt to subtract with overflow"
  | .addOverflow => "attempt to add with overflow"
  | .emptyRange => "cannot sample empty range"
  | .capacityOverflow => "capacity overflow"

/-- **Failure**: why no value was produced, either a fault or an error of the domain. -/
inductive Failure (ε : Type)
  | fault (f : Fault)
  | error (e : ε)
deriving DecidableEq, Repr

/-- The same failure, with its error stated in the terms of an enclosing operation. -/
def Failure.map {ε ε' : Type} (f : ε → ε') : Failure ε → Failure ε'
  | .fault x => .fault x
  | .error e => .error (f e)

/-- The element at a position; a fault past the end. -/
def fetch {α : Type} (xs : List α) (i : Nat) : Except Fault α :=
  match xs[i]? with
  | some x => .ok x
  | none => .error (.indexOutOfBounds xs.length i)

theorem fetch_eq_ok {α : Type} {xs : List α} {i : Nat} (h : i < xs.length) :
    fetch xs i = .ok xs[i] := by
  simp [fetch, h]

theorem fetch_eq_ok_iff {α : Type} {xs : List α} {i : Nat} {x : α} :
    fetch xs i = .ok x ↔ xs[i]? = some x := by
  unfold fetch
  cases xs[i]? <;> simp

end WeightedSat
