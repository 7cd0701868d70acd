import WeightedSat.Proofs.Session.History

/-!
# Erasing what failed

An operation that fails leaves the task of a session as it was, and unless a sink gave up it has
drawn nothing either: whatever an operation checks, it checks before its first draw. So the
operations that only ask and those that failed in this way can be left out of a history, and the
others answer as before.

All that such an operation leaves behind is its remarks. The log is no part of an answer, so the
sessions with and without the operation are compared up to their logs.

## Main definitions

* `Session.Agrees`: two sessions that differ in their logs at most
* `Session.Reply`, `Session.transcript`: the operations of a history with their answers
* `Session.Reply.idle`: the operation only asks, or has failed otherwise than by its sink
* `Session.Erases replies kept`: `kept` is `replies` without some idle ones

## Main results

* `Session.Agrees.perform`: an operation does not look at the log
* `Session.agrees_of_error`: what an operation that fails leaves behind
* `Session.Erases.replay`: the operations that are kept answer as before
* `Session.erasable_failures`: failed operations can be erased
-/

namespace WeightedSat

variable {F ρ σ : Type}

namespace Session

/-! ## Sessions up to their logs -/

/-- **Agreement**: two sessions have the same source, strategy and task. -/
structure Agrees (s t : Session F ρ) : Prop where
  source_eq : s.source = t.source
  strategy_eq : s.strategy = t.strategy
  task_eq : s.task = t.task

namespace Agrees

variable {s t u : Session F ρ}

theorem refl (s : Session F ρ) : s.Agrees s := ⟨rfl, rfl, rfl⟩

theorem symm (h : s.Agrees t) : t.Agrees s :=
  ⟨h.source_eq.symm, h.strategy_eq.symm, h.task_eq.symm⟩

theorem trans (h : s.Agrees t) (h' : t.Agrees u) : s.Agrees u :=
  ⟨h.source_eq.trans h'.source_eq, h.strategy_eq.trans h'.strategy_eq,
    h.task_eq.trans h'.task_eq⟩

/-- Agreeing sessions are one session with two logs. -/
theorem exists_log (h : s.Agrees t) : ∃ log, t = { s with log } := by
  obtain ⟨source, strategy, task, log⟩ := t
  obtain ⟨rfl, rfl, rfl⟩ := h
  exact ⟨log, rfl⟩

theorem inst?_eq (h : s.Agrees t) : s.inst? = t.inst? := by
  unfold inst?
  rw [h.task_eq]

theorem lastRun?_eq (h : s.Agrees t) : s.lastRun? = t.lastRun? := by
  unfold lastRun?
  rw [h.task_eq]

theorem load (h : s.Agrees t) (reading : Mwcnf.Reading Instance) :
    (loading ((load reading).run s)).1 = (loading ((load reading).run t)).1 ∧
      (loading ((load reading).run s)).2.Agrees (loading ((load reading).run t)).2 := by
  obtain ⟨log, rfl⟩ := h.exists_log
  unfold Session.load EStateM.run
  dsimp only
  cases reading #[] with
  | ok inst notices => exact ⟨rfl, ⟨rfl, rfl, rfl⟩⟩
  | error e notices => exact ⟨rfl, ⟨rfl, rfl, rfl⟩⟩

theorem finished (h : s.Agrees t) : s.finished = t.finished := by
  unfold Session.finished
  rw [h.task_eq]

variable [Scalar F] [WordSource ρ]

theorem solve [TraceSink F σ] (h : s.Agrees t) (mode : Mode F) (sink : Option σ) :
    (s.solve mode sink).outcome = (t.solve mode sink).outcome ∧
      (s.solve mode sink).sink = (t.solve mode sink).sink ∧
      (s.solve mode sink).session.Agrees (t.solve mode sink).session := by
  obtain ⟨log, rfl⟩ := h.exists_log
  unfold Session.solve
  dsimp only
  cases htask : s.task with
  | none => exact ⟨rfl, rfl, ⟨rfl, rfl, htask⟩⟩
  | some task =>
    dsimp only
    cases Objective.ofInstance (F := F) task.inst with
    | error c => exact ⟨rfl, rfl, ⟨rfl, rfl, htask⟩⟩
    | ok o =>
      dsimp only
      cases (anneal o s.strategy (mode.resolve task.inst) s.source sink).outcome with
      | error e => exact ⟨rfl, rfl, ⟨rfl, rfl, rfl⟩⟩
      | ok r => exact ⟨rfl, rfl, ⟨rfl, rfl, rfl⟩⟩

/-- **No operation looks at the log**: agreeing sessions answer alike and agree afterwards. -/
theorem perform (h : s.Agrees t) (op : Op F ρ) :
    (perform op s).1 = (perform op t).1 ∧ (perform op s).2.Agrees (perform op t).2 := by
  cases op with
  | load path contents => exact h.load _
  | read stream name => exact h.load _
  | setInstance inst => exact ⟨rfl, h.source_eq, h.strategy_eq, rfl⟩
  | setSource source => exact ⟨rfl, rfl, h.strategy_eq, h.task_eq⟩
  | solve mode sink =>
    obtain ⟨houtcome, hsink, hsession⟩ := h.solve mode sink
    exact ⟨Prod.ext houtcome hsink, hsession⟩
  | inst? => exact ⟨h.inst?_eq, h⟩
  | lastRun? => exact ⟨h.lastRun?_eq, h⟩
  | bestSolution =>
    refine ⟨?_, h⟩
    show s.bestSolution = t.bestSolution
    unfold bestSolution
    rw [h.finished]
  | completeSummary =>
    refine ⟨?_, h⟩
    show s.completeSummary = t.completeSummary
    unfold completeSummary
    rw [h.finished]

end Agrees

/-! ## Replies -/

/-- **Reply**: an operation with its answer. -/
structure Reply (F ρ : Type) : Type 1 where
  op : Op F ρ
  answer : op.Answer

/-- The error that an outcome is; a value is none, and neither is a fault. -/
def errorOf? {ε α : Type} : Except (Failure ε) α → Option ε
  | .error (.error e) => some e
  | _ => none

theorem errorOf?_eq_some {ε α : Type} {x : Except (Failure ε) α} {e : ε} :
    errorOf? x = some e ↔ x = .error (.error e) := by
  rcases x with (f | e') | a <;> simp [errorOf?]

/-- Whether an operation asks about the session and does nothing to it. -/
def Op.asks : Op F ρ → Bool
  | .inst? => true
  | .lastRun? => true
  | .bestSolution => true
  | .completeSummary => true
  | _ => false

/-- The error that an answer reports, if it does. -/
def Op.error? : (op : Op F ρ) → op.Answer → Option (SolveError F)
  | .load _ _, answer => errorOf? answer
  | .read _ _, answer => errorOf? answer
  | .setInstance _, _ => none
  | .setSource _, _ => none
  | @Op.solve _ _ _ _ _ _, answer => errorOf? answer.1
  | .inst?, _ => none
  | .lastRun?, _ => none
  | .bestSolution, answer => errorOf? answer
  | .completeSummary, answer => errorOf? answer

namespace Reply

/-- The error that the operation has returned, if it has. -/
def error? (r : Reply F ρ) : Option (SolveError F) := r.op.error? r.answer

/-- **Idle reply**: the operation only asks, or has failed with an error that is not that of its
sink. -/
def idle (r : Reply F ρ) : Bool :=
  match r.error? with
  | none => r.op.asks
  | some (.trace _) => false
  | some _ => true

theorem asks_or_error_of_idle {r : Reply F ρ} (h : r.idle = true) :
    r.op.asks = true ∨ ∃ e, r.error? = some e ∧ ∀ w, e ≠ .trace w := by
  unfold idle at h
  split at h
  · exact .inl h
  · cases h
  · next e hw he => exact .inr ⟨e, he, hw⟩

end Reply

section Histories

variable [Scalar F] [WordSource ρ]

/-- The reply of a session to an operation. -/
def reply (op : Op F ρ) (s : Session F ρ) : Reply F ρ := ⟨op, (perform op s).1⟩

/-- **Transcript**: the replies of a session to operations, one after another. -/
def transcript : List (Op F ρ) → Session F ρ → List (Reply F ρ)
  | [], _ => []
  | op :: ops, s => reply op s :: transcript ops (perform op s).2

theorem Agrees.transcript_eq {s t : Session F ρ} (h : s.Agrees t) (ops : List (Op F ρ)) :
    transcript ops s = transcript ops t := by
  induction ops generalizing s t with
  | nil => rfl
  | cons op ops ih =>
    obtain ⟨hanswer, hsession⟩ := h.perform op
    rw [transcript, transcript, ih hsession, reply, reply, hanswer]

theorem Agrees.after {s t : Session F ρ} (h : s.Agrees t) (ops : List (Op F ρ)) :
    (after ops s).Agrees (after ops t) := by
  induction ops generalizing s t with
  | nil => exact h
  | cons op ops ih => exact ih (h.perform op).2

/-! ## One operation that fails -/

omit [Scalar F] [WordSource ρ] in
theorem agrees_load {reading : Mwcnf.Reading Instance} {s : Session F ρ} {e : SolveError F}
    (h : (loading ((load reading).run s)).1 = .error (.error e)) :
    (loading ((load reading).run s)).2.Agrees s := by
  unfold load EStateM.run at h ⊢
  dsimp only at h ⊢
  cases hreading : reading #[] with
  | ok inst notices =>
    rw [hreading] at h
    cases h
  | error f notices => exact ⟨rfl, rfl, rfl⟩

/-- A search that fails leaves the task, and unless its sink gave up it leaves the source too. -/
theorem agrees_solve [TraceSink F σ] {mode : Mode F} {sink : Option σ} {s : Session F ρ}
    {e : SolveError F} (h : (s.solve mode sink).outcome = .error (.error e)) :
    (s.solve mode sink).session.task = s.task ∧
      ((∀ w, e ≠ .trace w) → (s.solve mode sink).session.Agrees s) := by
  unfold solve at h ⊢
  cases htask : s.task with
  | none => exact ⟨htask, fun _ => Agrees.refl s⟩
  | some task =>
    rw [htask] at h
    dsimp only at h ⊢
    cases hobjective : Objective.ofInstance (F := F) task.inst with
    | error c => exact ⟨htask, fun _ => Agrees.refl s⟩
    | ok o =>
      rw [hobjective] at h
      dsimp only at h ⊢
      cases houtcome : (anneal o s.strategy (mode.resolve task.inst) s.source sink).outcome with
      | ok r =>
        rw [houtcome] at h
        cases h
      | error f =>
        rw [houtcome] at h
        obtain rfl : f = .error e := Except.error.inj h
        refine ⟨rfl, fun hw => ?_⟩
        rcases anneal_eq_error houtcome with ⟨w, rfl⟩ | hidle
        · exact absurd rfl (hw w)
        · rw [hidle]
          exact ⟨rfl, rfl, htask.symm⟩

/-- **What an operation that fails leaves behind**: the task is as it was, and unless a sink gave up
so is all but the log. -/
theorem agrees_of_error {op : Op F ρ} {s : Session F ρ} {e : SolveError F}
    (h : (reply op s).error? = some e) :
    (perform op s).2.task = s.task ∧
      ((∀ w, e ≠ .trace w) → (perform op s).2.Agrees s) := by
  cases op with
  | load path contents =>
    have hagrees := agrees_load (errorOf?_eq_some.mp h)
    exact ⟨hagrees.task_eq, fun _ => hagrees⟩
  | read stream name =>
    have hagrees := agrees_load (errorOf?_eq_some.mp h)
    exact ⟨hagrees.task_eq, fun _ => hagrees⟩
  | solve mode sink => exact agrees_solve (errorOf?_eq_some.mp h)
  | setInstance inst => cases h
  | setSource source => cases h
  | inst? => cases h
  | lastRun? => cases h
  | bestSolution => exact ⟨rfl, fun _ => Agrees.refl s⟩
  | completeSummary => exact ⟨rfl, fun _ => Agrees.refl s⟩

theorem agrees_of_asks {op : Op F ρ} (h : op.asks = true) (s : Session F ρ) :
    (perform op s).2.Agrees s := by
  cases op with
  | inst? => exact Agrees.refl s
  | lastRun? => exact Agrees.refl s
  | bestSolution => exact Agrees.refl s
  | completeSummary => exact Agrees.refl s
  | _ => cases h

theorem agrees_of_idle {op : Op F ρ} {s : Session F ρ} (h : (reply op s).idle = true) :
    (perform op s).2.Agrees s := by
  rcases Reply.asks_or_error_of_idle h with hasks | ⟨e, he, hw⟩
  · exact agrees_of_asks hasks s
  · exact (agrees_of_error he).2 hw

/-! ## Histories -/

/-- **Erasure**: the replies that are kept when some of the idle ones are left out. -/
inductive Erases : List (Reply F ρ) → List (Reply F ρ) → Prop
  | nil : Erases [] []
  | keep (r : Reply F ρ) {replies kept : List (Reply F ρ)} (h : Erases replies kept) :
    Erases (r :: replies) (r :: kept)
  | drop {r : Reply F ρ} (hr : r.idle = true) {replies kept : List (Reply F ρ)}
    (h : Erases replies kept) : Erases (r :: replies) kept

omit [Scalar F] [WordSource ρ] in
/-- All idle replies can be left out at once. -/
theorem erases_filter (replies : List (Reply F ρ)) :
    Erases replies (replies.filter fun r => !r.idle) := by
  induction replies with
  | nil => exact .nil
  | cons r replies ih =>
    by_cases hr : r.idle = true
    · simpa [hr] using ih.drop hr
    · simpa [hr] using ih.keep r

/-- **The operations that are kept answer as before**, and what they leave agrees with what the
whole history leaves. -/
theorem Erases.replay {ops : List (Op F ρ)} {s : Session F ρ} {kept : List (Reply F ρ)}
    (h : Erases (transcript ops s) kept) :
    transcript (kept.map (·.op)) s = kept ∧
      (Session.after (kept.map (·.op)) s).Agrees (Session.after ops s) := by
  -- Induction on the history, for all sessions: what is left out leaves an agreeing session.
  induction ops generalizing s kept with
  | nil =>
    cases h
    exact ⟨rfl, Agrees.refl s⟩
  | cons op ops ih =>
    cases h with
    | keep _ h =>
      obtain ⟨hsame, hagrees⟩ := ih h
      exact ⟨congrArg (reply op s :: ·) hsame, hagrees⟩
    | drop hidle h =>
      obtain ⟨hsame, hagrees⟩ := ih h
      have hs := (agrees_of_idle hidle).symm
      exact ⟨(hs.transcript_eq _).trans hsame, (hs.after _).trans hagrees⟩

/-- **Failed operations can be erased.** An operation that returns an error leaves the instance and
the last result as they were, and unless the error is that of a sink also the source. If some or all
of the operations that only ask, or that returned an error other than that of a sink, are left out
of a history, then the others answer as before: with the same results, the same sinks and the same
summaries. The instance, the last result and the source are the same at the end, too. -/
theorem erasable_failures (s : Session F ρ) :
    (∀ op e, (reply op s).error? = some e →
      (perform op s).2.inst? = s.inst? ∧ (perform op s).2.lastRun? = s.lastRun? ∧
        ((∀ w, e ≠ .trace w) → (perform op s).2.source = s.source)) ∧
    ∀ ops, Erases (transcript ops s) ((transcript ops s).filter fun r => !r.idle) ∧
      ∀ kept, Erases (transcript ops s) kept →
        transcript (kept.map (·.op)) s = kept ∧
        (after (kept.map (·.op)) s).inst? = (after ops s).inst? ∧
        (after (kept.map (·.op)) s).lastRun? = (after ops s).lastRun? ∧
        (after (kept.map (·.op)) s).source = (after ops s).source := by
  constructor
  · intro op e he
    obtain ⟨htask, hagrees⟩ := agrees_of_error he
    refine ⟨?_, ?_, fun hw => (hagrees hw).source_eq⟩
    · unfold inst?
      rw [htask]
    · unfold lastRun?
      rw [htask]
  · intro ops
    refine ⟨erases_filter _, fun kept hkept => ?_⟩
    obtain ⟨hsame, hagrees⟩ := hkept.replay
    exact ⟨hsame, hagrees.inst?_eq, hagrees.lastRun?_eq, hagrees.source_eq⟩

end Histories

/-- A session with an instance and no result. -/
def pairSession : Session Float WordCycle :=
  { source := allOnes, strategy := .noise, task := some { inst := pairInstance } }

/-- A search without moves. -/
def idleSearch : Op Float WordCycle :=
  .solve (.explicit { pairSchedule with iterationsPerTemperature := 0 }) (some (Quota.mk 9))

/-- A search that fails at once, a question without an answer, a search whose sink gives up after a
row, and one that is fine. -/
def failingHistory : List (Op Float WordCycle) :=
  [idleSearch, .completeSummary, .solve (.explicit pairSchedule) (some (Quota.mk 1)),
    .solve (.explicit pairSchedule) (some (Quota.mk 9))]

theorem failingHistory_kept :
    ((transcript failingHistory pairSession).filter fun r => !r.idle).length = 2 := by
  decide +kernel

theorem erasable_failures_pair :
    (reply idleSearch pairSession).error? = some (.invalidSchedule .noIterations) ∧
      (perform idleSearch pairSession).2.source = allOnes ∧
      ∃ kept, Erases (transcript failingHistory pairSession) kept ∧ kept.length = 2 ∧
        transcript (kept.map (·.op)) pairSession = kept := by
  obtain ⟨hfailed, hhistory⟩ := erasable_failures pairSession
  obtain ⟨herases, hreplay⟩ := hhistory failingHistory
  have herror : (reply idleSearch pairSession).error? = some (.invalidSchedule .noIterations) := by
    decide +kernel
  obtain ⟨-, -, hsource⟩ := hfailed _ _ herror
  exact ⟨herror, hsource (by simp), _, herases, failingHistory_kept, (hreplay _ herases).1⟩

end Session

end WeightedSat
