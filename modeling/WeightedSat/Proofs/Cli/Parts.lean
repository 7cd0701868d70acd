import WeightedSat.Proofs.Cli.Attempt
import WeightedSat.Proofs.Report.SpoolText

/-!
# The parts of the program

Once the instance is loaded, the desk is known by which channels are open and by what has been
written to them: the file of the summary has its old bytes before what was written, the file of the
trace has nothing before it, and no other file has changed. Each part of the program takes one such
desk to another, and fails, if it does, with the desk as it has found it.

A channel without a file counts as open: nothing can be said of its file, and what is written to it
is lost.

## Main definitions

* `Channel`, `Invocation.path?`, `Channel.initial`: the two files that are written, and their bytes
  once they are open
* `Separate t inv`: the files are no devices and not the same
* `Texts`, `Desk.Written`: what has been written, and a desk on which just this was written

## Main results

* `ends_loadInstance`: what loading leaves behind
* `Desk.Written.rewrite`: the file of a channel is opened, or written to
* `Desk.Written.ends_openSummary`, `Desk.Written.ends_openTrace`: the two files are opened
* `Desk.Written.ends_emit`, `Desk.Written.ends_writePending`, `Desk.Written.ends_writeSummary`: what
  is written to them
-/

namespace WeightedSat.Cli

/-! ## Channels -/

/-- **Channel**: one of the files that the program writes. -/
inductive Channel
  | summary
  | trace
deriving DecidableEq

/-- The path of the file of a channel, if one is asked for. -/
def Invocation.path? (inv : Invocation) : Channel → Option String
  | .summary => inv.output
  | .trace => inv.trace

/-- Whether a file is opened with its old bytes. -/
def Channel.keep : Channel → Bool
  | .summary => true
  | .trace => false

/-- The bytes of a file once it is open. -/
def Channel.initial (c : Channel) (old : Option ByteArray) : ByteArray :=
  if c.keep then old.getD .empty else .empty

/-- **Separate**: the paths of the channels lead to no devices, and not to the same place. -/
structure Separate (t : FileTree) (inv : Invocation) : Prop where
  not_leadsToDevice : ∀ c path, inv.path? c = some path → ¬ t.LeadsToDevice path
  place_ne : ∀ c c' path path' p, c ≠ c' → inv.path? c = some path → inv.path? c' = some path' →
    t.place? path = some p → t.place? path' ≠ some p

/-- Paths to different places are separate. -/
theorem separate_of_place? {t : FileTree} {inv : Invocation} {output trace : String}
    {p q : List String} (houtput : inv.output = some output) (htrace : inv.trace = some trace)
    (hp : t.place? output = some p) (hq : t.place? trace = some q) (hpq : p ≠ q) :
    Separate t inv := by
  have hplace : ∀ c path, inv.path? c = some path →
      t.place? path = some (match c with | .summary => p | .trace => q) := by
    rintro (_ | _) path hpath
    · rwa [← Option.some.inj (houtput.symm.trans hpath)]
    · rwa [← Option.some.inj (htrace.symm.trans hpath)]
  refine ⟨fun c path hpath => FileTree.not_leadsToDevice_of_place? (hplace c path hpath), ?_⟩
  intro c c' path path' r hne hpath hpath' hr hr'
  have hsame := Option.some.inj (((hplace c path hpath).symm.trans hr).trans
    (hr'.symm.trans (hplace c' path' hpath')))
  cases c <;> cases c'
  · exact hne rfl
  · exact hpq hsame
  · exact hpq hsame.symm
  · exact hne rfl

/-- **Texts**: what has been written to each of the channels. -/
abbrev Texts := Channel → ByteArray

namespace Texts

/-- Nothing has been written. -/
def none : Texts := fun _ => .empty

/-- The texts with bytes added to one of them. -/
def add (c : Channel) (bytes : ByteArray) (texts : Texts) : Texts := fun c' =>
  if c' = c then texts c' ++ bytes else texts c'

theorem add_empty (c : Channel) (texts : Texts) : texts.add c .empty = texts := by
  funext c'
  simp [add]

theorem add_add (c : Channel) (bytes bytes' : ByteArray) (texts : Texts) :
    (texts.add c bytes).add c bytes' = texts.add c (bytes ++ bytes') := by
  funext c'
  by_cases h : c' = c <;> simp [add, h, ByteArray.append_assoc]

end Texts

/-! ## The log and the instance -/

section Loading

theorem run_load {F ρ : Type} (reading : Mwcnf.Reading Instance) (s : Session F ρ) :
    (Session.load reading).run s =
      match reading.run #[] with
      | .error e notices => .error (e.map .load) { s with log := s.log ++ notices.map .reading }
      | .ok inst notices =>
        .ok () (Session.setInstance inst { s with log := s.log ++ notices.map .reading }) := rfl

variable {ρ : Type} {d : Desk} {E : Desk → Prop}

theorem ends_showLine (verbose : Bool) (severity : Severity) (text : String) :
    Ends (showLine verbose severity text) d (fun _ d' => ∃ log, d' = d.withLog log) E := by
  unfold showLine
  split
  · exact ends_logLine _
  · exact Ends.pure ⟨d.log, rfl⟩

theorem ends_showEach (verbose : Bool) (events : List (Event Float)) :
    Ends (forIn events PUnit.unit fun e _ => do
        showLine verbose e.severity e.text
        pure (ForInStep.yield PUnit.unit)) d (fun _ d' => ∃ log, d' = d.withLog log) E := by
  induction events generalizing d with
  | nil => exact Ends.pure ⟨d.log, rfl⟩
  | cons e events ih =>
    rw [List.forIn_cons, bind_assoc]
    refine (ends_showLine verbose e.severity e.text).bind ?_
    rintro _ _ ⟨log, rfl⟩
    rw [pure_bind]
    exact ih

/-- **Showing the log** of a session does nothing else, and the session forgets it. -/
theorem ends_showLog (verbose : Bool) (s : Session Float ρ) :
    Ends (showLog verbose s) d
      (fun s' d' => s' = { s with log := #[] } ∧ ∃ log, d' = d.withLog log) E := by
  unfold showLog
  rw [← Array.forIn_toList]
  refine (ends_showEach verbose s.log.toList).bind fun _ d' hd => ?_
  exact Ends.pure ⟨rfl, hd⟩

/-- **Loading** reads the file and leaves everything as it is but the log, whether it succeeds or
fails. -/
theorem ends_loadInstance (verbose : Bool) (path : String) (s : Session Float ρ) :
    Ends (loadInstance verbose path s) d
      (fun s' d' => (∃ inst notices,
        (Mwcnf.load path (d.tree.read path)).run #[] = .ok inst notices ∧ s'.inst? = some inst) ∧
        ∃ log, d' = d.withLog log)
      (fun d' => (∃ e notices,
        (Mwcnf.load path (d.tree.read path)).run #[] = .error e notices) ∧
        ∃ log, d' = d.withLog log) := by
  refine (ends_readFile path).bind ?_
  rintro _ d' ⟨rfl, hd⟩
  obtain rfl : d = d' := hd.symm
  rw [run_load]
  cases hload : (Mwcnf.load path (d.tree.read path)).run #[] with
  | error e notices =>
    refine (ends_showLog verbose _).bind ?_
    rintro _ d' ⟨-, hd⟩
    exact Ends.throw ⟨⟨e, notices, rfl⟩, hd⟩
  | ok inst notices =>
    refine (ends_showLog verbose _).mono ?_ fun _ => id
    rintro _ d' ⟨rfl, hd⟩
    exact ⟨⟨inst, notices, rfl, rfl⟩, hd⟩

end Loading

/-! ## What has been written -/

/-- **Written**: a desk on which, since its tree was `t`, some channels have been opened and the
texts have been written. The texts of channels without a file do not count, and no file of another
place has changed. -/
structure Desk.Written (t : FileTree) (inv : Invocation) (opened : List Channel) (texts : Texts)
    (answer : ByteArray) (d : Desk) : Prop where
  eq_withFiles : d.tree = t.withFiles d.tree.files
  file_eq : ∀ c ∈ opened, ∀ path, inv.path? c = some path → ∃ p, t.place? path = some p ∧
    d.tree.file? p = some (c.initial (t.file? p) ++ texts c)
  frame : ∀ q, (∀ c ∈ opened, ∀ path, inv.path? c = some path → t.place? path ≠ some q) →
    d.tree.file? q = t.file? q
  answer_eq : d.answer = answer

namespace Desk.Written

variable {t : FileTree} {inv : Invocation} {opened opened' : List Channel} {texts texts' : Texts}
  {answer : ByteArray} {d : Desk} {c : Channel} {path : String} {p : List String}
  {tree : FileTree} {E : Desk → Prop}

theorem start (t : FileTree) (inv : Invocation) (d : Desk) (h : d.tree = t) :
    Written t inv [] .none d.answer d where
  eq_withFiles := by
    rw [h]
    rfl
  file_eq _ h := nomatch h
  frame _ _ := by rw [h]
  answer_eq := rfl

theorem withLog (h : Written t inv opened texts answer d) (log : ByteArray) :
    Written t inv opened texts answer (d.withLog log) where
  eq_withFiles := h.eq_withFiles
  file_eq := h.file_eq
  frame := h.frame
  answer_eq := h.answer_eq

theorem place?_eq (h : Written t inv opened texts answer d) (path : String) :
    d.tree.place? path = t.place? path := by
  rw [h.eq_withFiles, FileTree.place?_withFiles]

/-- A channel without a file is as good as open, whatever was written to it. -/
theorem of_path?_eq_none (h : Written t inv opened texts answer d) (hpath : inv.path? c = none)
    (htexts : ∀ c', c' ≠ c → texts' c' = texts c') :
    Written t inv (c :: opened) texts' answer d where
  eq_withFiles := h.eq_withFiles
  file_eq := by
    intro c' hc' path hpath'
    have hne : c' ≠ c := by
      rintro rfl
      rw [hpath] at hpath'
      cases hpath'
    rw [htexts c' hne]
    exact h.file_eq c' ((List.mem_cons.mp hc').resolve_left hne) path hpath'
  frame q hq := h.frame q fun c' hc' => hq c' (List.mem_cons_of_mem c hc')
  answer_eq := h.answer_eq

/-- **The file of a channel** is given bytes: it is opened, or written to. -/
theorem rewrite (hseparate : Separate t inv) (h : Written t inv opened texts answer d)
    (hpath : inv.path? c = some path) (hplace : t.place? path = some p)
    (hrewritten : d.tree.Rewritten p (c.initial (t.file? p) ++ texts' c) tree)
    (htexts : ∀ c', c' ≠ c → texts' c' = texts c') :
    Written t inv (c :: opened) texts' answer (d.withTree tree) where
  eq_withFiles := by
    show tree = t.withFiles tree.files
    rw [hrewritten.eq_withFiles, h.eq_withFiles]
    rfl
  file_eq := by
    intro c' hc' path' hpath'
    by_cases hcc : c' = c
    · subst hcc
      obtain rfl : path = path' := Option.some.inj (hpath.symm.trans hpath')
      exact ⟨p, hplace, hrewritten.file?_self⟩
    · obtain ⟨q, hq, hfile⟩ :=
        h.file_eq c' ((List.mem_cons.mp hc').resolve_left hcc) path' hpath'
      have hne : q ≠ p := by
        rintro rfl
        exact hseparate.place_ne c' c path' path q hcc hpath' hpath hq hplace
      refine ⟨q, hq, ?_⟩
      rw [htexts c' hcc]
      exact (hrewritten.file?_of_ne q hne).trans hfile
  frame := by
    intro q hq
    have hne : q ≠ p := by
      rintro rfl
      exact hq c List.mem_cons_self path hpath hplace
    refine (hrewritten.file?_of_ne q hne).trans (h.frame q fun c' hc' => ?_)
    exact hq c' (List.mem_cons_of_mem c hc')
  answer_eq := h.answer_eq

/-- A channel that is open is not opened once more. -/
theorem of_mem (h : Written t inv (c :: opened) texts answer d) (hc : c ∈ opened) :
    Written t inv opened texts answer d where
  eq_withFiles := h.eq_withFiles
  file_eq c' hc' := h.file_eq c' (List.mem_cons_of_mem c hc')
  frame := by
    intro q hq
    refine h.frame q fun c' hc' => ?_
    rcases List.mem_cons.mp hc' with rfl | hc'
    · exact hq c' hc
    · exact hq c' hc'
  answer_eq := h.answer_eq

/-- The file of a channel that is not open is as it was. -/
theorem file?_eq (hseparate : Separate t inv) (h : Written t inv opened texts answer d)
    (hc : c ∉ opened) (hpath : inv.path? c = some path) (hplace : t.place? path = some p) :
    d.tree.file? p = t.file? p := by
  refine h.frame p fun c' hc' path' hpath' hplace' => ?_
  have hne : c' ≠ c := by
    rintro rfl
    exact hc hc'
  exact hseparate.place_ne c' c path' path p hne hpath' hpath hplace' hplace

/-! ## Opening -/

/-- **Opening the file of a channel** leaves it with its initial bytes. -/
theorem ends_openForWriting (hseparate : Separate t inv) (h : Written t inv opened texts answer d)
    (hpath : inv.path? c = some path) (hc : c ∉ opened) (htext : texts c = .empty) :
    Ends (openForWriting c.keep path) d
      (fun refusal d' => refusal = none ∧ Written t inv (c :: opened) texts answer d')
      (Written t inv opened texts answer) := by
  refine (ends_openFile c.keep path).bind fun r d' hr => ?_
  rcases hr with ⟨e, rfl, rfl⟩ | ⟨tree, hopen, rfl, rfl⟩
  · exact Ends.throw h
  · have hdevice : ¬ d.tree.LeadsToDevice path := by
      rw [h.eq_withFiles, FileTree.leadsToDevice_withFiles]
      exact hseparate.not_leadsToDevice c path hpath
    obtain ⟨p, hplace, hrewritten⟩ := FileTree.rewritten_of_openFile hdevice hopen
    rw [h.place?_eq] at hplace
    rw [h.file?_eq hseparate hc hpath hplace] at hrewritten
    refine Ends.pure ⟨?_, ?_⟩
    · refine FileTree.refusal?_eq_none ?_
      rwa [hrewritten.leadsToDevice_iff]
    · refine h.rewrite hseparate hpath hplace ?_ fun _ _ => rfl
      rw [htext, ByteArray.append_empty]
      exact hrewritten

theorem ends_openSummary (hseparate : Separate t inv) (h : Written t inv [] .none answer d) :
    Ends (openSummary inv.output) d (fun _ => Written t inv [.summary] .none answer)
      (Written t inv [] .none answer) := by
  cases hpath : inv.output with
  | none => exact Ends.pure (h.of_path?_eq_none hpath fun _ _ => rfl)
  | some path =>
    refine (h.ends_openForWriting (c := .summary) hseparate hpath List.not_mem_nil rfl).bind
      fun _ d' hd => ?_
    exact Ends.pure hd.2

theorem ends_openTrace (hseparate : Separate t inv)
    (h : Written t inv [.summary] .none answer d) :
    Ends (openTrace inv.trace) d
      (fun trace d' => trace = inv.trace.map (fun _ => Spool.start none) ∧
        Written t inv [.trace, .summary] .none answer d')
      (Written t inv [.summary] .none answer) := by
  cases hpath : inv.trace with
  | none => exact Ends.pure ⟨rfl, h.of_path?_eq_none hpath fun _ _ => rfl⟩
  | some path =>
    refine (h.ends_openForWriting (c := .trace) hseparate hpath (by simp) rfl).bind
      fun _ d' hd => ?_
    obtain ⟨rfl, hd⟩ := hd
    exact Ends.pure ⟨rfl, hd⟩

/-! ## Writing -/

/-- **Bytes for an open channel** arrive at the end of its file, if it has one. -/
theorem ends_appendIfGiven (hseparate : Separate t inv) (h : Written t inv opened texts answer d)
    (hc : c ∈ opened) (bytes : ByteArray) :
    Ends (appendIfGiven (inv.path? c) bytes) d
      (fun r d' => r = .ok () ∧ Written t inv opened (texts.add c bytes) answer d') E := by
  have htexts : ∀ c', c' ≠ c → texts.add c bytes c' = texts c' := fun _ hne => if_neg hne
  cases hpath : inv.path? c with
  | none => exact Ends.pure ⟨rfl, (h.of_path?_eq_none hpath htexts).of_mem hc⟩
  | some path =>
    obtain ⟨p, hplace, hfile⟩ := h.file_eq c hc path hpath
    have htarget := FileTree.target_eq_file ((h.place?_eq path).trans hplace) hfile
    have hrun : d.append path bytes = .ok (d.withTree (d.tree.setFile p
        (c.initial (t.file? p) ++ texts c ++ bytes))) := by
      simp only [Desk.append, htarget, FileTree.append, Except.map]
      rfl
    refine (ends_append hrun).mono ?_ fun _ => id
    rintro r _ ⟨rfl, rfl⟩
    refine ⟨rfl, (h.rewrite hseparate hpath hplace ?_ htexts).of_mem hc⟩
    have htext : texts.add c bytes c = texts c ++ bytes := if_pos rfl
    rw [htext, ← ByteArray.append_assoc]
    exact d.tree.rewritten_setFile p _

/-- **The emissions of a search** add the portions of the trace to its file. -/
theorem ends_emit (hseparate : Separate t inv) (hc : .trace ∈ opened) (verbose : Bool)
    (es : List Emission) (h : Written t inv opened texts answer d) :
    Ends (emit verbose inv.trace es) d
      (fun r d' => r = .ok () ∧
        Written t inv opened (texts.add .trace (rowsOf es)) answer d') E := by
  induction es generalizing d texts with
  | nil =>
    refine Ends.pure ⟨rfl, ?_⟩
    rwa [rowsOf, Texts.add_empty]
  | cons e es ih =>
    cases e with
    | entry e =>
      refine (ends_showLine verbose e.severity e.text).bind ?_
      rintro _ _ ⟨log, rfl⟩
      exact ih (h.withLog log)
    | rows bytes =>
      refine (h.ends_appendIfGiven hseparate hc bytes).bind ?_
      rintro _ d' ⟨rfl, hd⟩
      have hrest := ih hd
      rwa [Texts.add_add] at hrest

/-- What a spool holds back is added to the file of the trace. -/
theorem ends_writePending (hseparate : Separate t inv) (hc : .trace ∈ opened)
    (h : Written t inv opened texts answer d) (spool : Option Spool) :
    Ends (writePending inv.trace spool) d
      (fun r d' => r = .ok () ∧ Written t inv opened
        (texts.add .trace (spool.elim .empty (·.pending))) answer d') E := by
  cases spool with
  | none =>
    refine Ends.pure ⟨rfl, ?_⟩
    rwa [Option.elim_none, Texts.add_empty]
  | some spool => exact h.ends_appendIfGiven hseparate hc spool.pending

/-- **The summary** is added to its file, if it has one. -/
theorem ends_writeSummary {ρ : Type} (hseparate : Separate t inv) (hc : .summary ∈ opened)
    (h : Written t inv opened texts answer d) {s : Session Float ρ} {summary : RunSummary}
    (hsummary : s.completeSummary = .ok summary) :
    Ends (writeSummary inv.output s) d
      (fun _ => Written t inv opened (texts.add .summary summary.line.toUTF8) answer) E := by
  have happend := h.ends_appendIfGiven (E := E) hseparate hc summary.line.toUTF8
  change Ends (appendIfGiven inv.output _) d _ E at happend
  cases hpath : inv.output with
  | none =>
    rw [hpath] at happend
    exact Ends.pure happend.2
  | some path =>
    rw [hpath] at happend
    unfold writeSummary
    simp only [hsummary, orEnd, pure_bind]
    refine happend.bind ?_
    rintro _ d' ⟨rfl, hd⟩
    exact Ends.pure hd

end Desk.Written

end WeightedSat.Cli
