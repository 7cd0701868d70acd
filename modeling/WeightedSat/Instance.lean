import WeightedSat.Clause
import WeightedSat.Count
import WeightedSat.LoadError

/-!
# Instances

An instance is a formula in clausal form together with a weight for each variable.  Its type
carries what every later computation relies on: there is one weight per variable, the weights sum
to a 64-bit number, and every literal names a variable of the instance.  `Instance.build` and
`Instance.ofParts` are the ways to make one.

Counting comes in two forms, as for clauses: `countUnsatisfied` and `unsatisfiedClauses` read the
clauses in order and fault on an assignment that is too short; `numUnsatisfied` is the total
reading, equal to the count on every assignment that covers the variables
(`countUnsatisfied_eq_ok`).

## Main definitions

* `Instance.build`: an instance from weights and signed codes, or the reason why there is none.
* `Instance.weightOf`, `Instance.countUnsatisfied`, `Instance.unsatisfiedClauses`.
-/

namespace WeightedSat

/-- The number of variables from which on no table of weights can be allocated, `2⁶⁰`: a table of
eight-byte weights may not pass half of a 64-bit address space. -/
def capacity : Nat := 0x1000000000000000

/-- **Instance**: clauses over weighted variables. -/
structure Instance where
  /-- The identifier of the instance. -/
  name : String
  numVars : Nat
  /-- The number of clauses that the header announces, which may differ from their number. -/
  declaredClauses : Nat
  /-- The weight of each variable, in order. -/
  weights : List Nat
  clauses : List Clause
  numVars_lt : numVars < capacity
  length_weights : weights.length = numVars
  total_weights_le : total weights ≤ maxCount
  var_lt : ∀ c ∈ clauses, ∀ l ∈ c.literals, l.var < numVars
deriving DecidableEq, Repr

namespace Instance

/-! ## Construction -/

/-- The first `n` weights, with zeros for those that are missing. -/
def fitWeights (n : Nat) (ws : List Nat) : List Nat :=
  ws.take n ++ List.replicate (n - ws.length) 0

@[simp] theorem length_fitWeights (n : Nat) (ws : List Nat) : (fitWeights n ws).length = n := by
  simp only [fitWeights, List.length_append, List.length_take, List.length_replicate]
  omega

/-- The literals of a list of codes, zeros left out, or the first code that names a variable
beyond the first `n`. -/
def literalsOf (n : Nat) : List Int → Except Int (List Literal)
  | [] => .ok []
  | z :: zs =>
    match Literal.ofCode? z with
    | none => literalsOf n zs
    | some l =>
      if l.var < n then
        match literalsOf n zs with
        | .ok ls => .ok (l :: ls)
        | .error bad => .error bad
      else .error z

/-- The clauses of lists of codes, empty ones left out, or the first code that names a variable
beyond the first `n`. -/
def clausesOf (n : Nat) : List (List Int) → Except Int (List Clause)
  | [] => .ok []
  | zs :: rest =>
    match literalsOf n zs with
    | .error bad => .error bad
    | .ok ls =>
      match clausesOf n rest with
      | .error bad => .error bad
      | .ok cs => .ok ((Clause.ofLiterals? ls).toList ++ cs)

theorem var_lt_of_literalsOf {n : Nat} {zs : List Int} {ls : List Literal}
    (h : literalsOf n zs = .ok ls) : ∀ l ∈ ls, l.var < n := by
  induction zs generalizing ls with
  | nil =>
    cases h
    simp
  | cons z zs ih =>
    simp only [literalsOf] at h
    split at h
    · exact ih h
    · split at h
      · next hl =>
        split at h
        · next hs =>
          cases h
          intro m hm
          rcases List.mem_cons.1 hm with rfl | hm
          · exact hl
          · exact ih hs m hm
        · cases h
      · cases h

theorem literals_of_mem_ofLiterals? {ls : List Literal} {c : Clause}
    (h : c ∈ (Clause.ofLiterals? ls).toList) : c.literals = ls := by
  unfold Clause.ofLiterals? at h
  split at h
  · simp at h
  · simp only [Option.toList_some, List.mem_singleton] at h
    rw [h]

theorem var_lt_of_clausesOf {n : Nat} {raw : List (List Int)} {cs : List Clause}
    (h : clausesOf n raw = .ok cs) : ∀ c ∈ cs, ∀ l ∈ c.literals, l.var < n := by
  induction raw generalizing cs with
  | nil =>
    cases h
    simp
  | cons zs rest ih =>
    simp only [clausesOf] at h
    split at h
    · cases h
    · next ls hls =>
      split at h
      · cases h
      · next ds hds =>
        cases h
        intro c hc l hl
        rcases List.mem_append.1 hc with hc | hc
        · rw [literals_of_mem_ofLiterals? hc] at hl
          exact var_lt_of_literalsOf hls l hl
        · exact ih hds c hc l hl

/-- The instance with the given parts.  The weights are cut or filled with zeros to one per
variable, zero codes and then empty clauses are left out, and the declared number of clauses is
the number of those that remain unless another one is given.

The capacity is looked at first, then the sum of the weights, then the codes in order. -/
def build (name : String) (numVars : Nat) (declared : Option Nat) (weights : List Nat)
    (codes : List (List Int)) : Except (Failure LoadError) Instance :=
  if hn : numVars < capacity then
    if hw : total (fitWeights numVars weights) ≤ maxCount then
      match hc : clausesOf numVars codes with
      | .error code => .error (.error (.literalOutOfRange code numVars))
      | .ok clauses => .ok {
          name, numVars, clauses
          declaredClauses := declared.getD clauses.length
          weights := fitWeights numVars weights
          numVars_lt := hn
          length_weights := length_fitWeights numVars weights
          total_weights_le := hw
          var_lt := var_lt_of_clausesOf hc }
    else .error (.error .weightOverflow)
  else .error (.fault .capacityOverflow)

/-- The instance with the given parts, its declared clauses being those that it holds. -/
def ofParts (name : String) (numVars : Nat) (weights : List Nat) (codes : List (List Int)) :
    Except (Failure LoadError) Instance :=
  build name numVars none weights codes

/-! ## Weights and counts -/

/-- The number of clauses that the instance holds. -/
def numClauses (inst : Instance) : Nat := inst.clauses.length

/-- The weight of the assignment that sets every variable. -/
def totalWeight (inst : Instance) : Nat := total inst.weights

/-- The weight of one variable; a fault if the instance does not have it. -/
def weight (inst : Instance) (v : Nat) : Except Fault Nat := fetch inst.weights v

/-- The clause with a given number; a fault if the instance does not have it. -/
def clause (inst : Instance) (i : Nat) : Except Fault Clause := fetch inst.clauses i

/-- The sum of the weights of the variables that an assignment sets. -/
def weightOf (inst : Instance) (a : Assignment) : Nat :=
  total (List.zipWith (fun w b => if b then w else 0) inst.weights a.toList)

/-- The number of clauses of a list that an assignment leaves unsatisfied, added to `n`. -/
def countFrom (a : Assignment) (n : Nat) : List Clause → Except Fault Nat
  | [] => .ok n
  | c :: cs =>
    match c.isSatisfied a with
    | .ok true => countFrom a n cs
    | .ok false => countFrom a (n + 1) cs
    | .error f => .error f

/-- The number of clauses that an assignment leaves unsatisfied. -/
def countUnsatisfied (inst : Instance) (a : Assignment) : Except Fault Nat :=
  countFrom a 0 inst.clauses

/-- The numbers, from `i` on, of the clauses of a list that an assignment leaves unsatisfied. -/
def unsatisfiedFrom (a : Assignment) (i : Nat) : List Clause → Except Fault (List Nat)
  | [] => .ok []
  | c :: cs =>
    match c.isSatisfied a with
    | .ok true => unsatisfiedFrom a (i + 1) cs
    | .ok false =>
      match unsatisfiedFrom a (i + 1) cs with
      | .ok is => .ok (i :: is)
      | .error f => .error f
    | .error f => .error f

/-- The numbers of the clauses that an assignment leaves unsatisfied, in increasing order. -/
def unsatisfiedClauses (inst : Instance) (a : Assignment) : Except Fault (List Nat) :=
  unsatisfiedFrom a 0 inst.clauses

/-- The number of clauses without a true literal. -/
def numUnsatisfied (inst : Instance) (a : Assignment) : Nat :=
  inst.clauses.countP fun c => !c.holds a

theorem isSatisfied_eq_ok (inst : Instance) {a : Assignment} (ha : inst.numVars ≤ a.size)
    {c : Clause} (hc : c ∈ inst.clauses) : c.isSatisfied a = .ok (c.holds a) :=
  Clause.isSatisfied_eq_ok fun l hl => Nat.lt_of_lt_of_le (inst.var_lt c hc l hl) ha

theorem countFrom_eq_ok {a : Assignment} {cs : List Clause}
    (h : ∀ c ∈ cs, c.isSatisfied a = .ok (c.holds a)) (n : Nat) :
    countFrom a n cs = .ok (n + cs.countP fun c => !c.holds a) := by
  induction cs generalizing n with
  | nil => rfl
  | cons c cs ih =>
    have hc := h c (by simp)
    have ih := ih fun d hd => h d (List.mem_cons_of_mem _ hd)
    cases hv : c.holds a
    · simp [countFrom, hc, hv, ih]
      omega
    · simp [countFrom, hc, hv, ih]

/-- On an assignment that covers the variables, counting yields the number of clauses without a
true literal. -/
theorem countUnsatisfied_eq_ok (inst : Instance) {a : Assignment} (ha : inst.numVars ≤ a.size) :
    inst.countUnsatisfied a = .ok (inst.numUnsatisfied a) := by
  rw [countUnsatisfied, countFrom_eq_ok (fun c hc => inst.isSatisfied_eq_ok ha hc), Nat.zero_add]
  rfl

end Instance

end WeightedSat
