import WeightedSat.Cli.Program
import WeightedSat.Proofs.FileTree

/-!
# What an attempt leaves behind

The program asks its host for one thing after another, and whatever fails ends it there. `Ends` says
what holds at the desk in either case, and is chained along the program: what holds when one part
has succeeded is where the next one starts, and what holds when a part has failed is what is left in
the end.

## Main definitions

* `outcome x d`: what comes of the attempt `x` at the desk `d`
* `Ends x d P E`: from the desk `d` the attempt succeeds with `P`, or fails with `E`

## Main results

* `Ends.bind`: one part after the other
* `ends_readFile`, `ends_print`, `ends_logLine`, `ends_openFile`, `ends_append`: what each request
  to the host does
-/

namespace WeightedSat.Cli

/-! ## Attempts -/

section Attempts

variable {α β : Type} {x : Attempt (StateM Desk) α} {f : α → Attempt (StateM Desk) β} {d : Desk}
  {P : α → Desk → Prop} {Q : β → Desk → Prop} {E : Desk → Prop}

/-- The outcome of an attempt, with the desk that remains. -/
def outcome (x : Attempt (StateM Desk) α) (d : Desk) : Except (Failure ProgramError) α × Desk :=
  x.run.run d

/-- **Ending**: the attempt succeeds, and `P` holds of its value and of the desk that remains, or it
fails, and `E` holds of the desk that remains. -/
def Ends (x : Attempt (StateM Desk) α) (d : Desk) (P : α → Desk → Prop) (E : Desk → Prop) : Prop :=
  match outcome x d with
  | (.ok a, d') => P a d'
  | (.error _, d') => E d'

theorem Ends.pure {a : α} (h : P a d) : Ends (pure a) d P E := h

theorem Ends.throw {e : Failure ProgramError} (h : E d) :
    Ends (throw e : Attempt (StateM Desk) α) d P E := h

theorem outcome_bind (x : Attempt (StateM Desk) α) (f : α → Attempt (StateM Desk) β) (d : Desk) :
    outcome (x >>= f) d =
      match outcome x d with
      | (.ok a, d') => outcome (f a) d'
      | (.error e, d') => (.error e, d') := by
  change (match outcome x d with
    | (r, d') => (ExceptT.bindCont f r : StateM Desk (Except _ β)).run d') = _
  rcases outcome x d with ⟨_ | _, _⟩ <;> rfl

/-- **One part after the other**: the second starts where the first succeeds. -/
theorem Ends.bind (hx : Ends x d P E) (hf : ∀ a d', P a d' → Ends (f a) d' Q E) :
    Ends (x >>= f) d Q E := by
  unfold Ends at hx ⊢
  rw [outcome_bind]
  revert hx
  rcases outcome x d with ⟨e | a, d'⟩
  · exact id
  · exact hf a d'

theorem Ends.mono {P' : α → Desk → Prop} {E' : Desk → Prop} (h : Ends x d P E)
    (hP : ∀ a d', P a d' → P' a d') (hE : ∀ d', E d' → E' d') : Ends x d P' E' := by
  unfold Ends at h ⊢
  revert h
  rcases outcome x d with ⟨e | a, d'⟩
  · exact hE d'
  · exact hP a d'

theorem Ends.mono_error {E' : Desk → Prop} (h : Ends x d P E) (hE : ∀ d', E d' → E' d') :
    Ends x d P E' :=
  h.mono (fun _ _ => id) hE

end Attempts

/-! ## What the host does -/

section Host

variable {d : Desk} {E : Desk → Prop}

/-- The desk with another log. -/
def Desk.withLog (d : Desk) (log : ByteArray) : Desk := { d with log }

/-- The desk with another file tree. -/
def Desk.withTree (d : Desk) (tree : FileTree) : Desk := { d with tree }

/-- What the host does cannot fail. -/
theorem ends_lift {α : Type} {y : StateM Desk α} {P : α → Desk → Prop}
    (h : P (y.run d : α × Desk).1 (y.run d : α × Desk).2) :
    Ends (ExceptT.lift y) d P E := h

theorem ends_readFile (path : String) :
    Ends (Host.readFile path) d (fun r d' => r = d.tree.read path ∧ d' = d) E :=
  ends_lift ⟨rfl, rfl⟩

theorem ends_print (text : String) :
    Ends (Host.print text) d
      (fun _ d' => d' = { d with answer := d.answer ++ text.toUTF8 }) E :=
  ends_lift rfl

theorem ends_logLine (line : String) :
    Ends (Host.logLine line) d (fun _ d' => ∃ log, d' = d.withLog log) E :=
  ends_lift ⟨_, rfl⟩

theorem ends_openFile (keep : Bool) (path : String) :
    Ends (Host.openFile keep path) d
      (fun r d' =>
        (∃ e, r = .error e ∧ d' = d) ∨
          ∃ tree, d.tree.openFile keep path = .ok tree ∧ r = .ok (tree.refusal? path) ∧
            d' = d.withTree tree) E := by
  refine ends_lift ?_
  simp only [Host.openFile, StateT.run_bind, StateT.run_get, pure_bind]
  cases h : d.tree.openFile keep path with
  | error e => exact .inl ⟨e, rfl, rfl⟩
  | ok tree => exact .inr ⟨tree, rfl, rfl, rfl⟩

theorem ends_append {path : String} {bytes : ByteArray} {d' : Desk}
    (h : d.append path bytes = .ok d') :
    Ends (Host.append path bytes) d (fun r d₁ => r = .ok () ∧ d₁ = d') E := by
  refine ends_lift ?_
  simp only [Host.append, StateT.run_bind, StateT.run_get, pure_bind, h]
  exact ⟨rfl, rfl⟩

end Host

end WeightedSat.Cli
