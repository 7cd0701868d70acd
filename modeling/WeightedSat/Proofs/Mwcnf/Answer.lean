import WeightedSat.Proofs.Mwcnf.Lines

/-!
# Reading without the remarks

Remarks have no bearing on what is read: an action of the reader has one answer, whatever has been
remarked before. Without the remarks, reading is a fold over lines that have been decoded and
trimmed, in which every line either takes the phase to the next one or ends the reading for one of
four reasons.

## Main definitions

* `Answers x y`: the action `x` ends as `y`, whatever has been remarked before
* `header?`, `hasWeight`, `retained`: what header lines and weights lines say
* `Line`, `Stream.received`: the lines as they are received
* `Phase.meet`, `Phase.conclude`: one line, and the end of the lines

## Main results

* `answers_advance`, `answers_step`: the reader on one line
* `read?_eq`: reading is a fold of `Phase.meet`
-/

namespace WeightedSat.Mwcnf

/-! ## Answers -/

section Answers

variable {α β : Type}

/-- The answer of an action that has been run. -/
def answer : EStateM.Result (Failure LoadError) (Array Notice) α → Except (Failure LoadError) α
  | .ok a _ => .ok a
  | .error e _ => .error e

/-- **Answer**: how an action ends, whatever has been remarked before. -/
def Answers (x : Reading α) (y : Except (Failure LoadError) α) : Prop :=
  ∀ ns, answer (x.run ns) = y

variable {x : Reading α} {y : Except (Failure LoadError) α}

theorem Answers.pure (a : α) : Answers (pure a) (.ok a) := fun _ => rfl

theorem Answers.throw (e : Failure LoadError) : Answers (throw e : Reading α) (.error e) :=
  fun _ => rfl

theorem Answers.refuse (e : LoadError) : Answers (refuse e : Reading α) (.error (.error e)) :=
  fun _ => rfl

/-- **One action after the other**: the second answers as it does by itself. -/
theorem Answers.bind {f : α → Reading β} {g : α → Except (Failure LoadError) β} (hx : Answers x y)
    (hf : ∀ a, Answers (f a) (g a)) : Answers (x >>= f) (y >>= g) := by
  intro ns
  have hns := hx ns
  rw [EStateM.run_bind]
  cases hrun : x.run ns with
  | ok a t =>
    rw [hrun] at hns
    subst hns
    exact hf a t
  | error e t =>
    rw [hrun] at hns
    subst hns
    rfl

/-- An action that goes on after a remark answers as what follows. -/
theorem Answers.remark_bind (n : Notice) {f : Unit → Reading α} (hf : Answers (f ()) y) :
    Answers (Mwcnf.remark n >>= f) y :=
  fun ns => hf (ns.push n)

/-- A remark that may be made has no bearing. -/
theorem Answers.remark_if {p : Prop} [Decidable p] (n : Notice) {f : Unit → Reading α}
    (hf : Answers (f ()) y) : Answers (if p then Mwcnf.remark n >>= f else f ()) y := by
  split
  · exact hf.remark_bind n
  · exact hf

theorem Answers.foldlM {f : α → β → Reading α} {g : α → β → Except (Failure LoadError) α}
    (hf : ∀ a b, Answers (f a b) (g a b)) (bs : List β) (a : α) :
    Answers (bs.foldlM f a) (bs.foldlM g a) := by
  induction bs generalizing a with
  | nil => exact Answers.pure a
  | cons b bs ih =>
    simp only [List.foldlM_cons]
    exact (hf a b).bind ih

end Answers

/-! ## What the lines say -/

/-- A value that is required, or the error of its absence. -/
def demand {α : Type} (a? : Option α) (e : LoadError) : Except (Failure LoadError) α :=
  match a? with
  | some a => .ok a
  | none => .error (.error e)

/-- The positive number of variables and the number of clauses at the front of a list of words. -/
def sizes? : List (List Char) → Option (Nat × Nat)
  | vars :: clauses :: _ =>
    match Text.count? vars, Text.count? clauses with
    | some numVars, some numClauses => if numVars = 0 then none else some (numVars, numClauses)
    | _, _ => none
  | _ => none

/-- **Header**: what a header line says, which is the word `p`, a word for the format and the
sizes. -/
def header? (line : List Char) : Option (Nat × Nat) :=
  match Text.words line with
  | ['p'] :: _ :: rest => sizes? rest
  | _ => none

/-- Whether the word `w` and, right behind it, a count begin the line. -/
def hasWeight (line : List Char) : Bool :=
  (Text.words line).head? == some ['w'] && ((Text.words line).tail.head?.bind Text.count?).isSome

/-- The weights that are kept of a weights line. -/
def retained (numVars : Nat) (line : List Char) : List Nat :=
  takeWeights numVars (Text.words line).tail

theorem answers_readHeader (line : List Char) :
    Answers (readHeader line) (demand (header? line) (.invalidHeader (String.ofList line))) := by
  unfold readHeader
  split
  · next format rest hwords =>
    have hheader : header? line = sizes? rest := by
      rw [header?, hwords]
      rfl
    rw [hheader]
    refine Answers.remark_if _ ?_
    rcases rest with _ | ⟨vars, _ | ⟨clauses, more⟩⟩
    · exact Answers.refuse _
    · exact Answers.refuse _
    · dsimp only [sizes?]
      cases Text.count? vars with
      | none => exact Answers.refuse _
      | some numVars =>
        cases Text.count? clauses with
        | none => exact Answers.refuse _
        | some numClauses =>
          by_cases hzero : numVars = 0
          · simp only [if_pos hzero]
            exact Answers.refuse _
          · simp only [if_neg hzero]
            exact Answers.pure _
  · next hwords =>
    have hheader : header? line = none := by
      unfold header?
      split
      · next format rest hw => exact absurd hw (hwords format rest)
      · rfl
    rw [hheader]
    exact Answers.refuse _

/-- **Weights**: what a weights line says. The word `w` is enough to ask for the table of weights,
which may be too large for any memory. -/
def weightsOf (numVars : Nat) (line : List Char) : Except (Failure LoadError) (List Nat) :=
  if (Text.words line).head? = some ['w'] ∧ capacity ≤ numVars then
    .error (.fault .capacityOverflow)
  else if hasWeight line then .ok (Instance.fitWeights numVars (retained numVars line))
  else .error (.error .missingWeights)

theorem answers_readWeights (numVars : Nat) (line : List Char) :
    Answers (readWeights numVars line) (weightsOf numVars line) := by
  unfold readWeights weightsOf hasWeight retained
  split
  · next rest hwords =>
    simp only [hwords, List.head?_cons, List.tail_cons, true_and, beq_self_eq_true, Bool.true_and]
    by_cases hcap : capacity ≤ numVars
    · rw [if_pos hcap, if_pos hcap]
      exact Answers.throw _
    · rw [if_neg hcap, if_neg hcap]
      cases hweight : rest.head?.bind Text.count? with
      | none => exact Answers.refuse _
      | some weight =>
        simp only [Option.isNone_some, Option.isSome_some, Bool.false_eq_true, if_true, if_false]
        exact Answers.remark_if _ (Answers.pure _)
  · next hwords =>
    have hhead : (Text.words line).head? ≠ some ['w'] := by
      intro hw
      obtain ⟨rest, hrest⟩ := List.head?_eq_some_iff.mp hw
      exact hwords rest hrest
    rw [if_neg fun h => hhead h.1, beq_false_of_ne hhead, Bool.false_and]
    exact Answers.refuse _

/-! ## One line -/

/-- **Line**: what is received of a line, its characters without the blanks at its ends, or nothing
if its bytes are no text. -/
abbrev Line := Option (List Char)

/-- The lines that a stream delivers, as they are received. -/
def Stream.received (s : Stream) : List Line :=
  s.lines.map fun bytes => (decodeLine bytes).toOption.map fun text => Text.trim text.toList

/-- The lines of a text are received without the blanks at their ends. -/
theorem Stream.received_ofString (cs : List Char) :
    (Stream.ofString (String.ofList cs)).received =
      (textLines cs).map fun line => some (Text.trim line) := by
  rw [received, lines_ofString, List.map_map]
  refine List.map_congr_left fun line _ => ?_
  rw [Function.comp_apply, decodeLine_encode, Except.toOption, Option.map_some,
    String.toList_ofList]

/-- One significant line. -/
def Phase.heed (line : List Char) : Phase → Except (Failure LoadError) Phase
  | .header =>
    if line.head? = some 'p' then do
      let (numVars, declared) ← demand (header? line) (.invalidHeader (String.ofList line))
      pure (.weights numVars declared)
    else .ok .header
  | .weights numVars declared =>
    if line.head? = some 'w' then do
      let ws ← weightsOf numVars line
      pure (.clauses numVars declared ws [])
    else .ok (.weights numVars declared)
  | .clauses numVars declared ws reversed =>
    .ok (.clauses numVars declared ws (readClause line :: reversed))

/-- **One line as it is received.** -/
def Phase.meet (phase : Phase) : Line → Except (Failure LoadError) Phase
  | none => .error (.error (.unreadable .notText))
  | some line => if isComment line then .ok phase else phase.heed line

theorem Phase.answers_advance (phase : Phase) (line : List Char) :
    Answers (phase.advance line) (phase.heed line) := by
  cases phase with
  | header =>
    simp only [advance, heed]
    split
    · exact (answers_readHeader line).bind fun _ => Answers.pure _
    · exact Answers.remark_bind _ (Answers.pure _)
  | weights numVars declared =>
    simp only [advance, heed]
    split
    · exact (answers_readWeights numVars line).bind fun _ => Answers.pure _
    · exact Answers.remark_bind _ (Answers.pure _)
  | clauses numVars declared ws reversed => exact Answers.pure _

theorem Phase.answers_step (phase : Phase) (bytes : List UInt8) :
    Answers (phase.step bytes)
      (phase.meet ((decodeLine bytes).toOption.map fun text => Text.trim text.toList)) := by
  unfold step decodeLine
  cases String.fromUTF8? ⟨bytes.toArray⟩ with
  | none => exact Answers.throw _
  | some text =>
    change Answers (if isComment (Text.trim text.toList) then pure phase
        else phase.advance (Text.trim text.toList))
      (if isComment (Text.trim text.toList) then .ok phase else phase.heed (Text.trim text.toList))
    split
    · exact Answers.pure _
    · exact answers_advance phase _

/-! ## The lines of a stream -/

/-- **The end of the lines**, which is where the source ends or fails. -/
def Phase.conclude (broken : Bool) (name : String) (phase : Phase) :
    Except (Failure LoadError) Instance :=
  if broken then .error (.error (.unreadable .interrupted))
  else match phase with
    | .header => .error (.error .missingHeader)
    | .weights .. => .error (.error .missingWeights)
    | .clauses numVars declared ws reversed =>
      Instance.build name numVars (some declared) ws reversed.reverse

theorem answers_toInstance (d : Document) (name : String) :
    Answers (match d.toInstance name with
      | .error e => throw e
      | .ok inst => do
        if inst.numClauses ≠ d.declaredClauses then
          remark (.clauseCount d.declaredClauses inst.numClauses)
        remark (.parsed inst.name inst.numVars inst.numClauses)
        pure inst) (d.toInstance name) := by
  cases d.toInstance name with
  | error e => exact Answers.throw e
  | ok inst => exact Answers.remark_if _ (Answers.remark_bind _ (Answers.pure inst))

theorem answers_read (s : Stream) (name : String) :
    Answers (read s name)
      (s.received.foldlM Phase.meet .header >>= Phase.conclude s.broken name) := by
  have hlines : Answers (s.lines.foldlM Phase.step .header)
      (s.received.foldlM Phase.meet .header) := by
    rw [Stream.received, List.foldlM_map]
    exact Answers.foldlM Phase.answers_step _ _
  rw [read, readDocument, bind_assoc]
  refine hlines.bind fun phase => ?_
  cases s.broken with
  | true => exact Answers.throw _
  | false =>
    cases phase with
    | header => exact Answers.refuse _
    | weights numVars declared => exact Answers.refuse _
    | clauses numVars declared ws reversed =>
      exact answers_toInstance ⟨numVars, declared, ws, reversed.reverse⟩ name

/-- **Reading is a fold** over the lines as they are received. -/
theorem read?_eq (s : Stream) (name : String) :
    read? s name = s.received.foldlM Phase.meet .header >>= Phase.conclude s.broken name := by
  rw [← answers_read s name #[], read?]
  cases (read s name).run #[] <;> rfl

end WeightedSat.Mwcnf
