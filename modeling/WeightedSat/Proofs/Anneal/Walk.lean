import WeightedSat.Anneal.Walk
import WeightedSat.Proofs.Neighbor

/-!
# The walk never fails

On an instance with variables every move can be made, so from every source the walk has a position
after every number of moves. Every position of the walk keeps the evaluation of its own assignment,
and every move tried is one flip away from the position it is tried from.

## Main definitions

* `Position.Sound o p`: the position covers the variables and its evaluation is its own
* `Trial.Legal o p t`: what a trial from a position is
* `Objective.visited`, `Objective.remaining`, `Objective.tried`: the position after a number of
  moves, the source that remains then, and the trial of a given number

## Main results

* `Objective.run_walk`, `Objective.run_attempt`: the walk and its moves, as values
* `Objective.visited_sound`, `Objective.tried_legal`: every position is sound, and every trial legal
-/

namespace WeightedSat

variable {F ρ : Type} [Scalar F]

/-- **Sound position**: an assignment of all variables, with its own evaluation. -/
structure Position.Sound (o : Objective F) (p : Position F) : Prop where
  size_eq : p.assignment.size = o.inst.numVars
  toEvaluation_eq : p.toEvaluation = o.score p.assignment

/-- **Legal trial**: a move that fits the position, the evaluated position that it leads to, and a
decision that accepts whatever does not raise the energy. -/
structure Trial.Legal (o : Objective F) (p : Position F) (t : Trial F) : Prop where
  fits : t.move.Fits o.inst p.assignment
  candidate_eq : t.candidate.assignment = p.assignment.modify t.move.var not
  sound : t.candidate.Sound o
  improving_eq : t.improving = Scalar.lt (t.candidate.energy - p.energy) 0.0
  accepted_of_le : Scalar.le (t.candidate.energy - p.energy) 0.0 = true → t.accepted = true

namespace Position.Sound

variable {o : Objective F} {p : Position F}

theorem evaluate_eq_ok (h : p.Sound o) : o.evaluate p.assignment = .ok p.toEvaluation := by
  rw [h.toEvaluation_eq]
  exact o.evaluate_eq_ok (Nat.le_of_eq h.size_eq.symm)

theorem countUnsatisfied_eq_ok (h : p.Sound o) :
    o.inst.countUnsatisfied p.assignment = .ok p.unsatisfied := by
  rw [h.toEvaluation_eq]
  exact o.inst.countUnsatisfied_eq_ok (Nat.le_of_eq h.size_eq.symm)

theorem unsatisfied_eq (h : p.Sound o) : p.unsatisfied = o.inst.numUnsatisfied p.assignment := by
  rw [h.toEvaluation_eq]
  rfl

theorem weight_eq (h : p.Sound o) : p.weight = o.inst.weightOf p.assignment := by
  rw [h.toEvaluation_eq]
  rfl

theorem energy_eq (h : p.Sound o) : p.energy = o.energyOf p.unsatisfied p.weight := by
  rw [h.toEvaluation_eq]
  rfl

theorem unsatisfied_le (h : p.Sound o) : p.unsatisfied ≤ o.inst.numClauses := by
  rw [h.unsatisfied_eq]
  exact o.inst.numUnsatisfied_le p.assignment

end Position.Sound

theorem Trial.Legal.next_sound {o : Objective F} {p : Position F} {t : Trial F}
    (ht : t.Legal o p) (hp : p.Sound o) : (t.next p).Sound o := by
  unfold Trial.next
  split
  · exact ht.sound
  · exact hp

variable [WordSource ρ]

theorem succeeds_accepts {ε : Type} (delta temperature : F) (w : ρ) :
    Succeeds (accepts delta temperature : EStateM ε ρ Bool) w fun accepted _ =>
      Scalar.le delta 0.0 = true → accepted = true := by
  unfold accepts
  split
  · exact Succeeds.pure fun _ => rfl
  · next h =>
    exact (WordSource.succeeds_unit w).bind fun u _ _ => Succeeds.pure fun h' => absurd h' h

theorem succeeds_coins {ε : Type} (n : Nat) (w : ρ) :
    Succeeds (coins n : EStateM ε ρ (List Bool)) w fun bits _ => bits.length = n := by
  induction n generalizing w with
  | zero => exact Succeeds.pure rfl
  | succ n ih =>
    refine (WordSource.succeeds_coin w).bind fun b w _ => (ih w).bind fun bits w hbits => ?_
    exact Succeeds.pure (by simp [hbits])

namespace Objective

variable (o : Objective F) (strategy : Strategy F)

theorem sound_of_size_eq {a : Assignment} (ha : a.size = o.inst.numVars) :
    Position.Sound o { o.score a with assignment := a } where
  size_eq := ha
  toEvaluation_eq := rfl

theorem succeeds_initial (w : ρ) : Succeeds o.initial w fun p _ => p.Sound o := by
  refine (succeeds_coins o.inst.numVars w).bind fun bits w hbits => ?_
  have hsize : bits.toArray.size = o.inst.numVars := by simpa using hbits
  refine (Succeeds.ofExcept (Q := fun e _ => e = o.score bits.toArray)
    (o.evaluate_eq_ok (Nat.le_of_eq hsize.symm)) rfl).bind ?_
  rintro _ w rfl
  exact Succeeds.pure (o.sound_of_size_eq hsize)

/-- **A trial** from a sound position never fails, and is legal. -/
theorem succeeds_attempt (temperature : F) {p : Position F} (hp : p.Sound o) (w : ρ) :
    Succeeds (o.attempt strategy temperature p) w fun t _ => t.Legal o p := by
  have hcover : o.inst.numVars ≤ p.assignment.size := Nat.le_of_eq hp.size_eq.symm
  refine (strategy.succeeds_neighbor o.numVars_ne_zero hcover w).bind ?_
  rintro ⟨candidate, move⟩ w ⟨hfits, hflip⟩
  have hsize : candidate.size = o.inst.numVars := by
    rw [show candidate = p.assignment.modify move.var not from hflip, Array.size_modify]
    exact hp.size_eq
  refine (Succeeds.ofExcept (Q := fun e _ => e = o.score candidate)
    (o.evaluate_eq_ok (Nat.le_of_eq hsize.symm)) rfl).bind ?_
  rintro _ w rfl
  refine (succeeds_accepts _ temperature w).bind fun accepted w haccepted => ?_
  exact Succeeds.pure ⟨hfits, hflip, o.sound_of_size_eq hsize, rfl, haccepted⟩

variable (s : Schedule F)

/-- **The walk never fails**: there is a sound position after every number of moves. -/
theorem succeeds_walk (i : Nat) (source : ρ) :
    Succeeds (o.walk strategy s i) source fun p _ => p.Sound o := by
  -- Induction on the number of moves: each goes on from a sound position.
  induction i with
  | zero => exact o.succeeds_initial source
  | succ i ih =>
    refine ih.bind fun p w hp => (o.succeeds_attempt strategy _ hp w).bind fun t w ht => ?_
    exact Succeeds.pure (ht.next_sound hp)

theorem succeeds_trialAt (i : Nat) (source : ρ) :
    Succeeds (o.trialAt strategy s i) source fun _ _ => True :=
  (o.succeeds_walk strategy s i source).bind fun _ w hp =>
    (o.succeeds_attempt strategy _ hp w).mono fun _ _ _ => trivial

/-! ## The walk as values -/

variable (source : ρ) (i : Nat)

/-- The position after `i` moves. -/
def visited : Position F := (ending (o.succeeds_walk strategy s i source).exists_ok).1

/-- The source after `i` moves. -/
def remaining : ρ := (ending (o.succeeds_walk strategy s i source).exists_ok).2

/-- The trial of number `i`, from zero on. -/
def tried : Trial F := (ending (o.succeeds_trialAt strategy s i source).exists_ok).1

theorem run_walk : (o.walk strategy s i).run source =
    .ok (o.visited strategy s source i) (o.remaining strategy s source i) :=
  eq_ok_ending _

theorem visited_sound : (o.visited strategy s source i).Sound o :=
  (o.succeeds_walk strategy s i source).of_run (o.run_walk strategy s source i)

/-- One more move: it is tried at its own temperature, from the position and the source that the
moves before it have left, and the walk goes on from where it leads. -/
theorem attempt_and_walk_succ :
    (o.attempt strategy (s.temperatureAt i) (o.visited strategy s source i)).run
        (o.remaining strategy s source i) =
      .ok (o.tried strategy s source i) (o.remaining strategy s source (i + 1)) ∧
    o.visited strategy s source (i + 1) =
      (o.tried strategy s source i).next (o.visited strategy s source i) := by
  obtain ⟨w, htrial⟩ : ∃ w, (o.trialAt strategy s i).run source =
      .ok (o.tried strategy s source i) w :=
    ⟨_, eq_ok_ending (o.succeeds_trialAt strategy s i source).exists_ok⟩
  rw [trialAt, EStateM.run_bind, o.run_walk strategy s source i] at htrial
  have hwalk := o.run_walk strategy s source (i + 1)
  rw [walk, EStateM.run_bind, o.run_walk strategy s source i] at hwalk
  dsimp only at htrial hwalk
  rw [EStateM.run_bind, htrial] at hwalk
  obtain ⟨hnext, hrest⟩ := EStateM.Result.ok.inj hwalk
  exact ⟨htrial.trans (by rw [hrest]), hnext.symm⟩

/-- **The moves of the walk**: the trial of each number, from the position before it. -/
theorem run_attempt :
    (o.attempt strategy (s.temperatureAt i) (o.visited strategy s source i)).run
        (o.remaining strategy s source i) =
      .ok (o.tried strategy s source i) (o.remaining strategy s source (i + 1)) :=
  (o.attempt_and_walk_succ strategy s source i).1

theorem visited_succ : o.visited strategy s source (i + 1) =
    (o.tried strategy s source i).next (o.visited strategy s source i) :=
  (o.attempt_and_walk_succ strategy s source i).2

/-- A candidate that is accepted is the next position. -/
theorem visited_succ_of_accepted (h : (o.tried strategy s source i).accepted = true) :
    o.visited strategy s source (i + 1) = (o.tried strategy s source i).candidate := by
  rw [visited_succ, Trial.next, if_pos h]

theorem tried_legal :
    (o.tried strategy s source i).Legal o (o.visited strategy s source i) :=
  (o.succeeds_attempt strategy (s.temperatureAt i) (o.visited_sound strategy s source i)
    (o.remaining strategy s source i)).of_run (o.run_attempt strategy s source i)

end Objective

end WeightedSat
