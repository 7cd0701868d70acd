import WeightedSat.Fault

/-!
# Assignments and literals

An assignment gives a truth value to each variable; a literal is a variable or its negation.
Variables are numbered from zero, and the signed code of a literal is its one-based variable
number, negative for a negation.

Reading a literal under an assignment comes in two forms.  `Literal.value` is the program's: it
faults on a variable that the assignment does not reach.  `Literal.holds` is its total reading,
which calls such a literal false; the two agree wherever the assignment is long enough
(`value_eq_ok`).
-/

namespace WeightedSat

/-- **Assignment**: a truth value for each variable, the first variable at position zero. -/
abbrev Assignment := Array Bool

/-- **Literal**: a variable, or its negation. -/
structure Literal where
  /-- The zero-based number of the variable. -/
  var : Nat
  /-- Whether the literal is the variable itself rather than its negation. -/
  positive : Bool
deriving DecidableEq, Repr

namespace Literal

/-- The literal with a signed code; zero is the code of none. -/
def ofCode? (z : Int) : Option Literal :=
  if z = 0 then none else some ⟨z.natAbs - 1, decide (0 < z)⟩

/-- The signed code: the one-based variable number, negated for a negation. -/
def code (l : Literal) : Int :=
  if l.positive then Int.ofNat (l.var + 1) else -Int.ofNat (l.var + 1)

theorem ofCode?_code (l : Literal) : ofCode? l.code = some l := by
  obtain ⟨v, p⟩ := l
  have hv : ((v : Int) + 1).natAbs - 1 = v := by omega
  have hp : (0 : Int) < (v : Int) + 1 := by omega
  cases p
  · have hn : ¬ 0 < -((v : Int) + 1) := by omega
    have h0 : -((v : Int) + 1) ≠ 0 := by omega
    simp only [code, ofCode?, Bool.false_eq_true, if_false, Int.ofNat_eq_natCast, Int.natCast_add,
      Int.natCast_one, if_neg h0, Int.natAbs_neg, hv, decide_eq_false hn]
  · have h0 : (v : Int) + 1 ≠ 0 := by omega
    simp only [code, ofCode?, if_true, Int.ofNat_eq_natCast, Int.natCast_add, Int.natCast_one,
      if_neg h0, hv, decide_eq_true hp]

theorem code_of_ofCode? {z : Int} {l : Literal} (h : ofCode? z = some l) : l.code = z := by
  unfold ofCode? at h
  split at h
  · exact absurd h (by simp)
  · cases h
    by_cases hz : 0 < z
    · simp only [code, hz, decide_true, if_true, Int.ofNat_eq_natCast]
      omega
    · simp only [code, hz, decide_false, Bool.false_eq_true, if_false, Int.ofNat_eq_natCast]
      omega

/-- The fault of reading a literal beyond the end of an assignment.  It stands apart from the
reading, whose loops then need not own what they read. -/
@[noinline] def outside (l : Literal) (a : Assignment) : Fault :=
  .indexOutOfBounds a.size l.var

/-- The truth value of the literal; a fault if the assignment ends before its variable. -/
@[inline] def value (l : Literal) (a : Assignment) : Except Fault Bool :=
  match a[l.var]? with
  | some b => .ok (b == l.positive)
  | none => .error (l.outside a)

/-- Whether the literal is true under an assignment that reaches its variable. -/
def holds (l : Literal) (a : Assignment) : Bool :=
  a[l.var]? == some l.positive

theorem value_eq_ok {l : Literal} {a : Assignment} (h : l.var < a.size) :
    l.value a = .ok (l.holds a) := by
  simp [value, holds, h]

end Literal

end WeightedSat
