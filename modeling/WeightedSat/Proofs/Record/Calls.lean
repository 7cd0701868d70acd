import Mathlib.Order.Defs.Unbundled
import WeightedSat.Proofs.Standing
import WeightedSat.Record.Recorder

/-!
# A recorder under any calls

Once it has started, a recorder can be offered states and told of moves in any order, and it knows
nothing of the search that they come from. Whatever the calls are, and whether or not its sink takes
the rows, it holds the first of the states shown to it that none of them beats, and it has counted
the moves that it was told of. The two do not mix: offering a state leaves the count and the sink as
they are, and a move leaves the best state.

Improvement is a strict weak order. So the states that no other improves on all leave the same
number of clauses unsatisfied, and weigh the same if there are none; which of them came first does
not matter for either.

## Main definitions

* `Recorder.Call`, `Recorder.perform`, `Recorder.after`: calls, and the recorder after them
* `Recorder.offers`, `Recorder.moves`: the states that are offered, and how many moves are told of
* `FirstBest first others b`: the first of several states that none of them beats

## Main results

* `FirstBest.snoc_of_beats`, `FirstBest.snoc_of_not_beats`: one more state
* `Recorder.best_perform_step`, `Recorder.steps_perform_step`: a move
* `Recorder.firstBest_after`, `Recorder.steps_after`: what any calls keep
* `Recorder.after_calls`: the recorder after any calls
-/

namespace WeightedSat

/-! ## Improvement -/

namespace Standing

variable {s t : Standing}

/-- **Improvement** is a strict weak order: neither of two standings that are not comparable is
comparable with less than the other is. -/
theorem isStrictWeakOrder_beats : IsStrictWeakOrder Standing fun s t => t.beats s = true where
  irrefl := not_beats_self
  trans _ _ _ h h' := beats_trans h' h
  incomp_trans _ _ _ h h' :=
    ⟨not_beats_trans h'.1 h.1, not_beats_trans h.2 h'.2⟩

theorem unsatisfied_eq_of_not_beats (h : ¬ s.beats t) (h' : ¬ t.beats s) :
    s.unsatisfied = t.unsatisfied := by
  rw [not_beats_iff] at h h'
  exact Nat.le_antisymm h'.1 h.1

theorem weight_eq_of_not_beats (h : ¬ s.beats t) (h' : ¬ t.beats s) (ht : t.unsatisfied = 0) :
    s.weight = t.weight := by
  have hs := (unsatisfied_eq_of_not_beats h h').trans ht
  rw [not_beats_iff] at h h'
  exact Nat.le_antisymm (h.2 hs ht) (h'.2 ht hs)

end Standing

/-- The standings of a first state and some others, by their places. -/
def standings (first : Best) (others : List Best) (i : Nat) : Standing :=
  ((first :: others)[i]?.getD first).toStanding

/-- **First best**: of a first state and some others, `b` is the first that none of them beats. -/
def FirstBest (first : Best) (others : List Best) (b : Best) : Prop :=
  ∃ k, FirstUnbeaten (standings first others) others.length k ∧ (first :: others)[k]? = some b

section Places

variable {first b c : Best} {others : List Best} {i : Nat}

theorem standings_of_getElem? (h : (first :: others)[i]? = some b) :
    standings first others i = b.toStanding := by
  rw [standings, h, Option.getD_some]

theorem getElem?_append_singleton (c : Best) (hi : i ≤ others.length) :
    (first :: (others ++ [c]))[i]? = (first :: others)[i]? := by
  rw [← List.cons_append]
  exact List.getElem?_append_left (Nat.lt_succ_of_le hi)

/-- With one more state at the end, the others stay where they are. -/
theorem standings_append_singleton (c : Best) (hi : i ≤ others.length) :
    standings first others i = standings first (others ++ [c]) i := by
  rw [standings, standings, getElem?_append_singleton c hi]

theorem getElem?_last : (first :: (others ++ [c]))[others.length + 1]? = some c := by
  simp

end Places

namespace FirstBest

variable {first b c : Best} {others : List Best}

theorem nil (first : Best) : FirstBest first [] first :=
  ⟨0, FirstUnbeaten.zero _, rfl⟩

/-- With one more state at the end, it is still the first best of those before. -/
theorem kept (h : FirstBest first others b) (c : Best) :
    ∃ k, FirstUnbeaten (standings first (others ++ [c])) others.length k ∧
      (first :: (others ++ [c]))[k]? = some b := by
  obtain ⟨k, hk, hb⟩ := h
  exact ⟨k, hk.congr fun i hi => standings_append_singleton c hi,
    (getElem?_append_singleton c hk.le).trans hb⟩

/-- A state at the end that beats the best one takes its place. -/
theorem snoc_of_beats (h : FirstBest first others b) (hc : c.toStanding.beats b.toStanding) :
    FirstBest first (others ++ [c]) c := by
  obtain ⟨k, hk, hb⟩ := h.kept c
  refine ⟨others.length + 1, ?_, getElem?_last⟩
  rw [List.length_append]
  refine hk.succ_of_beats ?_
  rwa [standings_of_getElem? hb, standings_of_getElem? getElem?_last]

theorem snoc_of_not_beats (h : FirstBest first others b)
    (hc : ¬ c.toStanding.beats b.toStanding) : FirstBest first (others ++ [c]) b := by
  obtain ⟨k, hk, hb⟩ := h.kept c
  refine ⟨k, ?_, hb⟩
  rw [List.length_append]
  refine hk.succ_of_not_beats ?_
  rwa [standings_of_getElem? hb, standings_of_getElem? getElem?_last]

theorem mem (h : FirstBest first others b) : b ∈ first :: others := by
  obtain ⟨k, -, hb⟩ := h
  exact List.mem_of_getElem? hb

theorem not_beats (h : FirstBest first others b) (hc : c ∈ first :: others) :
    ¬ c.toStanding.beats b.toStanding := by
  obtain ⟨k, hk, hb⟩ := h
  obtain ⟨i, hi⟩ := List.mem_iff_getElem?.mp hc
  have hle : i ≤ others.length := by
    have hlt := (List.getElem?_eq_some_iff.mp hi).1
    exact Nat.le_of_lt_succ hlt
  have hnot := hk.not_beats i hle
  rwa [standings_of_getElem? hi, standings_of_getElem? hb] at hnot

end FirstBest

/-! ## Calls -/

namespace Recorder

variable {F σ : Type}

/-- **Call**: a state is offered, or the recorder is told of a move. -/
inductive Call (F : Type)
  | offer (a : Assignment) (e : Evaluation F)
  | step (e : Evaluation F)

/-- The states that are offered, in order. -/
def offers (cs : List (Call F)) : List Best :=
  cs.filterMap fun
    | .offer a e => some { e with assignment := a }
    | .step _ => none

/-- The number of moves that the recorder is told of. -/
def moves (cs : List (Call F)) : Nat :=
  cs.countP fun
    | .offer _ _ => false
    | .step _ => true

/-- The recorder that an action leaves, whether it fails or not. -/
def left {ε α : Type} : EStateM.Result ε (Recorder σ) α → Recorder σ
  | .ok _ r => r
  | .error _ r => r

variable [TraceSink F σ]

/-- **The recorder after a call**. A move whose row is refused leaves a recorder as well, and so
does one for which there is no row. -/
def perform (r : Recorder σ) : Call F → Recorder σ
  | .offer a e => (r.offer a e.toStanding).2
  | .step e => left ((step e).run r)

/-- The recorder after several calls. -/
def after (r : Recorder σ) (cs : List (Call F)) : Recorder σ := cs.foldl perform r

section Offers

omit [TraceSink F σ]

variable (r : Recorder σ) (a : Assignment) (s : Standing)

/-- **An offer is answered truly**: with yes exactly if the best state changes. -/
theorem offer_iff : (r.offer a s).1 = true ↔ (r.offer a s).2.best ≠ r.best := by
  unfold offer
  split
  · next hbeats =>
    refine iff_of_true rfl fun heq => ?_
    have hs : s = r.best.toStanding := congrArg Best.toStanding heq
    exact Standing.not_beats_self s (hs ▸ hbeats)
  · exact iff_of_false Bool.false_ne_true fun hne => hne rfl

/-- An offer changes the best state at most. -/
theorem offer_eq : (r.offer a s).2 = { r with best := (r.offer a s).2.best } := by
  unfold offer
  split <;> rfl

end Offers

section Steps

variable (r : Recorder σ) (e : Evaluation F)

/-- Handing over a row changes the sink at most. -/
theorem left_emit : left ((emit e).run r) = { r with sink := (left ((emit e).run r)).sink } := by
  unfold emit EStateM.run
  dsimp only
  split
  · rfl
  · split
    · rfl
    · split <;> rfl

theorem left_step : left ((step e).run r) =
    if maxCount ≤ r.steps then r
    else left ((emit e).run { r with steps := r.steps + 1 }) := by
  simp only [step, EStateM.run_bind, EStateM.run_get]
  split <;> rfl

/-- **A move** leaves the best state. -/
theorem best_perform_step : (r.perform (.step e)).best = r.best := by
  rw [perform, left_step]
  split
  · rfl
  · rw [left_emit]

/-- **A move** is counted, whether its row is taken or not, if the counter has room for it. -/
theorem steps_perform_step (hr : r.steps ≤ maxCount) :
    (r.perform (.step e)).steps = saturate (r.steps + 1) := by
  rw [perform, left_step]
  split
  · next hfull =>
    have hsteps := Nat.le_antisymm hr hfull
    rw [saturate, hsteps, Nat.min_eq_right (Nat.le_succ _)]
  · next hroom =>
    rw [left_emit, saturate_of_le (Nat.lt_of_not_le hroom)]

theorem eq_of_start {a : Assignment} {numClauses : Nat} {sink : Option σ}
    (h : start a e numClauses sink = .ok () r) :
    r.best = { e with assignment := a } ∧ r.steps = 0 := by
  have hleft : left (start a e numClauses sink) = r := by rw [h]; rfl
  rw [← hleft, start, left_emit]
  exact ⟨rfl, rfl⟩

end Steps

/-! ## Any calls -/

section Calls

variable {r : Recorder σ} {first : Best}

/-- **One call** keeps the first best of the states shown so far. -/
theorem firstBest_perform {others : List Best} (h : FirstBest first others r.best) (c : Call F) :
    FirstBest first (others ++ offers [c]) (r.perform c).best := by
  cases c with
  | offer a e =>
    show FirstBest first (others ++ [{ e with assignment := a }]) (r.offer a e.toStanding).2.best
    unfold offer
    split
    · next hbeats => exact h.snoc_of_beats hbeats
    · next hbeats => exact h.snoc_of_not_beats hbeats
  | step e =>
    rw [best_perform_step]
    exact (List.append_nil others).symm ▸ h

/-- **Any calls** keep the first best of the states shown so far. -/
theorem firstBest_after {others : List Best} (h : FirstBest first others r.best)
    (cs : List (Call F)) : FirstBest first (others ++ offers cs) (r.after cs).best := by
  -- Induction on the calls, for all recorders: the states of one call join those before it.
  induction cs generalizing r others with
  | nil => exact (List.append_nil others).symm ▸ h
  | cons c cs ih =>
    have hcalls : offers (c :: cs) = offers [c] ++ offers cs := List.filterMap_append (l := [c])
    rw [hcalls, ← List.append_assoc]
    exact ih (firstBest_perform h c)

/-- **Any calls** are counted as far as they are moves. -/
theorem steps_after (hr : r.steps ≤ maxCount) (cs : List (Call F)) :
    (r.after cs).steps = saturate (r.steps + moves cs) := by
  induction cs generalizing r with
  | nil => exact (saturate_of_le hr).symm
  | cons c cs ih =>
    cases c with
    | offer a e =>
      have hsteps : (r.perform (.offer a e)).steps = r.steps := by
        rw [perform, offer_eq]
      have hrest := ih (r := r.perform (.offer a e)) (hsteps ▸ hr)
      rw [hsteps] at hrest
      exact hrest
    | step e =>
      have hsteps := steps_perform_step r e hr
      have hrest := ih (r := r.perform (.step e)) (hsteps ▸ saturate_le _)
      have hmoves : moves (.step e :: cs) = moves cs + 1 := by simp [moves]
      rw [hsteps, saturate_saturate_add, Nat.add_assoc, Nat.add_comm 1] at hrest
      rw [hmoves]
      exact hrest

/-- **The recorder after any calls.** Improvement is a strict weak order. From a recorder that has
started with some state, whatever calls follow, the best state is the first of this one and those
offered that none of them beats, with its own assignment. Every offer is answered with yes exactly
if the best state changes by it, and it changes neither the count nor the sink; a move never changes
the best state. All moves are counted, those whose rows were refused among them, until the counter
is full. So the order of the offers matters neither for the number of unsatisfied clauses at the end
nor, if there are none, for the weight. -/
theorem after_calls {a : Assignment} {e : Evaluation F} {numClauses : Nat} {sink : Option σ}
    (h : start a e numClauses sink = .ok () r) (cs : List (Call F)) :
    (IsStrictWeakOrder Standing fun s t => t.beats s = true) ∧
      FirstBest { e with assignment := a } (offers cs) (r.after cs).best ∧
      (∀ (r' : Recorder σ) (b : Assignment) (s : Standing),
        ((r'.offer b s).1 = true ↔ (r'.offer b s).2.best ≠ r'.best) ∧
        (r'.offer b s).2.steps = r'.steps ∧ (r'.offer b s).2.sink = r'.sink) ∧
      (∀ (r' : Recorder σ) (e' : Evaluation F), (r'.perform (.step e')).best = r'.best) ∧
      (r.after cs).steps = saturate (moves cs) ∧
      ∀ cs' : List (Call F), (offers cs').Perm (offers cs) →
        (r.after cs').best.unsatisfied = (r.after cs).best.unsatisfied ∧
        ((r.after cs).best.unsatisfied = 0 →
          (r.after cs').best.weight = (r.after cs).best.weight) := by
  obtain ⟨hbest, hsteps⟩ := eq_of_start r e h
  have hstart : FirstBest { e with assignment := a } [] r.best := hbest ▸ FirstBest.nil _
  have hfirst : ∀ ds : List (Call F),
      FirstBest { e with assignment := a } (offers ds) (r.after ds).best :=
    fun ds => firstBest_after hstart ds
  refine ⟨Standing.isStrictWeakOrder_beats, hfirst cs, fun r' b s => ⟨offer_iff r' b s, ?_, ?_⟩,
    best_perform_step, ?_, fun cs' hperm => ?_⟩
  · rw [offer_eq]
  · rw [offer_eq]
  · have hcount := steps_after (hsteps ▸ Nat.zero_le _) cs
    rwa [hsteps, Nat.zero_add] at hcount
  · have hstates := hperm.cons ({ e with assignment := a } : Best)
    have hnot := (hfirst cs).not_beats (hstates.mem_iff.mp (hfirst cs').mem)
    have hnot' := (hfirst cs').not_beats (hstates.mem_iff.mpr (hfirst cs).mem)
    exact ⟨Standing.unsatisfied_eq_of_not_beats hnot hnot',
      Standing.weight_eq_of_not_beats hnot hnot'⟩

end Calls

/-- A recorder whose sink has taken the first row and takes one more. -/
def openedRecorder : Recorder Quota :=
  { best := ⟨⟨1, 2⟩, #[false, true]⟩, numClauses := 3, sink := some ⟨1⟩ }

/-- Three offers, of which the second ties with the first, and three moves: the second row is
refused, and for the third move there are not as many clauses as it says. -/
def mixedCalls : List (Call Float) :=
  [.offer #[true, true] ⟨⟨0, 4⟩, 0.5⟩, .step ⟨⟨0, 4⟩, 0.5⟩, .step ⟨⟨1, 2⟩, 1.5⟩,
    .offer #[true, false] ⟨⟨0, 4⟩, 0.5⟩, .step ⟨⟨5, 1⟩, 9.0⟩, .offer #[false, false] ⟨⟨2, 9⟩, 2.0⟩]

theorem after_calls_mixed :
    start #[false, true] (⟨⟨1, 2⟩, 1.5⟩ : Evaluation Float) 3 (some (⟨2⟩ : Quota)) =
        .ok () openedRecorder ∧
      (openedRecorder.after mixedCalls).best = ⟨⟨0, 4⟩, #[true, true]⟩ ∧
      FirstBest openedRecorder.best (offers mixedCalls) ⟨⟨0, 4⟩, #[true, true]⟩ ∧
      (openedRecorder.after mixedCalls).steps = 3 ∧
      (openedRecorder.after mixedCalls.reverse).best.assignment = #[true, false] ∧
      (openedRecorder.after mixedCalls.reverse).best.weight = 4 := by
  have hstart : start #[false, true] (⟨⟨1, 2⟩, 1.5⟩ : Evaluation Float) 3 (some (⟨2⟩ : Quota)) =
      .ok () openedRecorder := rfl
  have hbest : (openedRecorder.after mixedCalls).best = ⟨⟨0, 4⟩, #[true, true]⟩ := rfl
  have hmoves : saturate (moves mixedCalls) = 3 := by decide
  have hreverse : (offers mixedCalls.reverse).Perm (offers mixedCalls) := by decide
  obtain ⟨-, hfirst, -, -, hsteps, hperm⟩ := after_calls hstart mixedCalls
  have hweight := (hperm mixedCalls.reverse hreverse).2
  rw [hbest] at hfirst hweight
  exact ⟨hstart, hbest, hfirst, hsteps.trans hmoves, rfl, hweight rfl⟩

end Recorder

end WeightedSat
