import WeightedSat.Literal

/-!
# Clauses

A clause is a nonempty disjunction of literals.  `Clause.isSatisfied` reads the literals from the
left and stops at the first true one, so an assignment that is too short goes unnoticed unless a
literal beyond its end is reached; `Clause.holds` is the total reading, and the two agree on
assignments that cover the clause (`isSatisfied_eq_ok`).
-/

namespace WeightedSat

/-- **Clause**: a disjunction of at least one literal. -/
structure Clause where
  literals : List Literal
  literals_ne_nil : literals ≠ []
deriving DecidableEq, Repr

namespace Clause

/-- The clause of a list of literals; the empty list makes none. -/
def ofLiterals? (ls : List Literal) : Option Clause :=
  if h : ls = [] then none else some ⟨ls, h⟩

/-- Whether some literal is true, the literals being read from the left up to the first such. -/
def anyTrue (a : Assignment) : List Literal → Except Fault Bool
  | [] => .ok false
  | l :: ls =>
    match l.value a with
    | .ok true => .ok true
    | .ok false => anyTrue a ls
    | .error f => .error f

/-- Whether a literal of the clause is true; a fault if a literal that the assignment does not
reach is read before any true one. -/
def isSatisfied (c : Clause) (a : Assignment) : Except Fault Bool :=
  anyTrue a c.literals

/-- Whether a literal of the clause is true, under an assignment that covers the clause. -/
def holds (c : Clause) (a : Assignment) : Bool :=
  c.literals.any (·.holds a)

theorem anyTrue_eq_ok {a : Assignment} {ls : List Literal} (h : ∀ l ∈ ls, l.var < a.size) :
    anyTrue a ls = .ok (ls.any (·.holds a)) := by
  induction ls with
  | nil => rfl
  | cons l ls ih =>
    have hl := Literal.value_eq_ok (h l (by simp))
    have ih := ih fun m hm => h m (List.mem_cons_of_mem _ hm)
    cases hv : l.holds a <;> simp [anyTrue, hl, hv, ih]

theorem isSatisfied_eq_ok {c : Clause} {a : Assignment} (h : ∀ l ∈ c.literals, l.var < a.size) :
    c.isSatisfied a = .ok (c.holds a) :=
  anyTrue_eq_ok h

end Clause

end WeightedSat
