import WeightedSat.Proofs.Anneal.Silence
import WeightedSat.Proofs.Report.TraceRows

/-!
# Writing a trace

Writing one text after another is writing them joined, also on a medium with a limit: the bytes
that fit are the same, and so is whether some do not. So the pieces of a row may be written one by
one or as a line, and the lines one by one or as a text, and a medium that is full has taken a
prefix of the whole text, wherever in a row it ends.

## Main definitions

* `Medium.writeEach`: texts written one by one

## Main results

* `Medium.run_write_append`, `Medium.run_writeEach`: texts one by one and joined
* `run_feed_csvTrace`: a trace is fed by writing the lines of its rows
-/

namespace WeightedSat

namespace Medium

/-- Writes texts one by one, up to the first that does not fit. -/
def writeEach : List String → EStateM WriteError Medium Unit
  | [] => pure ()
  | text :: texts => do
    write text
    writeEach texts

variable (bytes : ByteArray) (limit flushes : Nat) (a b text : String)

theorem run_write_none :
    (write text).run ⟨bytes, none, flushes⟩ = .ok () ⟨bytes ++ text.toUTF8, none, flushes⟩ := rfl

theorem run_write_some : (write text).run ⟨bytes, some limit, flushes⟩ =
    if text.toUTF8.size ≤ limit - bytes.size then
      .ok () ⟨bytes ++ text.toUTF8, some limit, flushes⟩
    else
      .error .diskFull
        ⟨bytes ++ text.toUTF8.extract 0 (limit - bytes.size), some limit, flushes⟩ := rfl

/-- **Two texts** are written one after the other as they are written joined. -/
theorem run_write_append (m : Medium) :
    (write (a ++ b)).run m = (write a >>= fun _ => write b).run m := by
  obtain ⟨bytes, limit, flushes⟩ := m
  have hbytes : (a ++ b).toUTF8 = a.toUTF8 ++ b.toUTF8 := String.toByteArray_append
  rw [EStateM.run_bind]
  cases limit with
  | none =>
    rw [run_write_none, run_write_none, hbytes, ← ByteArray.append_assoc]
    rfl
  | some limit =>
    rw [run_write_some, run_write_some, hbytes, ByteArray.size_append, ByteArray.extract_append]
    by_cases ha : a.toUTF8.size ≤ limit - bytes.size
    · have hroom : limit - (bytes ++ a.toUTF8).size = limit - bytes.size - a.toUTF8.size := by
        rw [ByteArray.size_append, Nat.sub_add_eq]
      have hwhole : a.toUTF8.extract 0 (limit - bytes.size) = a.toUTF8 := by
        rw [← Nat.max_eq_left ha]
        exact ByteArray.extract_zero_max_size
      rw [if_pos ha, hwhole]
      dsimp only
      rw [run_write_some, hroom, Nat.zero_sub]
      by_cases hb : b.toUTF8.size ≤ limit - bytes.size - a.toUTF8.size
      · rw [if_pos hb, if_pos (by omega), ByteArray.append_assoc]
      · rw [if_neg hb, if_neg (by omega), ByteArray.append_assoc]
    · have hnone : b.toUTF8.extract (0 - a.toUTF8.size) (limit - bytes.size - a.toUTF8.size) =
          ByteArray.empty := by
        rw [ByteArray.extract_eq_empty_iff]
        omega
      rw [if_neg ha, if_neg (by omega), hnone, ByteArray.append_empty]

/-- **Texts** are written one by one as they are written joined. -/
theorem run_writeEach (texts : List String) (m : Medium) :
    (writeEach texts).run m = (write (String.join texts)).run m := by
  induction texts generalizing m with
  | nil =>
    have hempty : ("" : String).toUTF8 = ByteArray.empty := rfl
    obtain ⟨bytes, limit, flushes⟩ := m
    rw [String.join_nil]
    cases limit with
    | none =>
      rw [run_write_none, hempty, ByteArray.append_empty]
      rfl
    | some limit =>
      have hfits : ByteArray.empty.size ≤ limit - bytes.size := Nat.zero_le _
      rw [run_write_some, hempty, if_pos hfits, ByteArray.append_empty]
      rfl
  | cons text texts ih =>
    rw [String.join_cons, run_write_append, writeEach, EStateM.run_bind, EStateM.run_bind]
    cases (write text).run m with
    | error w m => rfl
    | ok _ m => exact ih m

/-- A medium that is empty takes the first bytes of a text, as many as it may, and the write fails
if these are not all. -/
theorem run_write_empty :
    (write text).run { limit := some limit } =
      if text.toUTF8.size ≤ limit then
        .ok () { bytes := text.toUTF8.extract 0 (min limit text.toUTF8.size), limit := some limit }
      else
        .error .diskFull
          { bytes := text.toUTF8.extract 0 (min limit text.toUTF8.size), limit := some limit } := by
  rw [run_write_some]
  have hroom : limit - ByteArray.empty.size = limit := Nat.sub_zero limit
  rw [hroom, ByteArray.empty_append, ByteArray.empty_append]
  by_cases hfits : text.toUTF8.size ≤ limit
  · rw [if_pos hfits, if_pos hfits, Nat.min_eq_right hfits, ByteArray.extract_zero_size]
  · rw [if_neg hfits, if_neg hfits, Nat.min_eq_left (by omega)]

end Medium

/-! ## Traces -/

namespace CsvTrace

/-- A trace on a medium that has been written to. -/
def written : EStateM.Result WriteError Medium Unit →
    EStateM.Result WriteError (Option CsvTrace) Unit
  | .ok _ m => .ok () (some ⟨m⟩)
  | .error w m => .error w (some ⟨m⟩)

theorem run_record (row : TraceRow Float) (s : CsvTrace) :
    (TraceSink.record row).run s =
      match (Medium.write row.line).run s.medium with
      | .ok _ medium => .ok () { s with medium }
      | .error w medium => .error w { s with medium } := rfl

theorem run_hand (row : TraceRow Float) (m : Medium) :
    (hand row).run (some (⟨m⟩ : CsvTrace)) = written ((Medium.write row.line).run m) := by
  rw [run_hand_some, run_record]
  dsimp only
  cases (Medium.write row.line).run m <;> rfl

/-- **Feeding a trace** is writing the lines of the rows. -/
theorem run_feed (rows : List (TraceRow Float)) (m : Medium) :
    (feed rows).run (some (⟨m⟩ : CsvTrace)) = written ((Medium.write (linesText rows)).run m) := by
  -- Induction on the rows, for all media: a line that does not fit ends both sides.
  induction rows generalizing m with
  | nil =>
    have hempty : (Medium.writeEach []).run m = (Medium.write (linesText [])).run m :=
      Medium.run_writeEach [] m
    rw [← hempty]
    rfl
  | cons row rows ih =>
    have hlines : linesText (row :: rows) = row.line ++ linesText rows := String.join_cons
    rw [run_feed_cons, run_hand, hlines, Medium.run_write_append, EStateM.run_bind]
    cases (Medium.write row.line).run m with
    | error w m => rfl
    | ok _ m => exact ih m

theorem run_feed_start {m : Medium} {s : CsvTrace} {m' : Medium} (h : start m = .ok s m')
    (rows : List (TraceRow Float)) :
    (feed rows).run (some s) = written ((Medium.write (traceText rows)).run m) := by
  unfold start at h
  rw [traceText, Medium.run_write_append, EStateM.run_bind]
  cases hheader : (Medium.write traceHeader).run m with
  | error w m₀ =>
    rw [hheader] at h
    cases h
  | ok _ m₀ =>
    rw [hheader] at h
    obtain ⟨rfl, -⟩ := EStateM.Result.ok.inj h
    exact run_feed rows m₀

theorem exists_start {limit : Nat} (h : traceHeader.toUTF8.size ≤ limit) :
    ∃ s m, start { limit := some limit } = .ok s m := by
  unfold start
  rw [Medium.run_write_empty, if_pos h]
  exact ⟨_, _, rfl⟩

end CsvTrace

/-! ## Searches that are traced -/

section Anneal

variable {ρ : Type} [WordSource ρ]

variable {o : Objective Float} {strategy : Strategy Float} {schedule : Schedule Float} {source : ρ}
  {r : RunResult Float}

/-- A search whose trace goes to a medium with a limit: the medium has taken the first bytes of the
text of the trace, and the search ends with an error of the sink exactly if these are not all. -/
theorem anneal_csvTrace
    (h : (anneal o strategy schedule source (none : Option (RowLog Float))).outcome = .ok r)
    {limit : Nat} (hlimit : traceHeader.toUTF8.size ≤ limit) {text : ByteArray}
    (htext : text = (traceText (o.rows strategy schedule source (r.iterations + 1))).toUTF8) :
    ∃ s m s', CsvTrace.start { limit := some limit } = .ok s m ∧
      (anneal o strategy schedule source (some s)).sink = some s' ∧
      s'.medium.bytes = text.extract 0 (min limit text.size) ∧
      ((∃ w, (anneal o strategy schedule source (some s)).outcome = .error (.error (.trace w))) ↔
        limit < text.size) := by
  obtain ⟨s, m, hs⟩ := CsvTrace.exists_start hlimit
  have htells := anneal_tells h (some s)
  have hfeed := CsvTrace.run_feed_start hs (o.rows strategy schedule source (r.iterations + 1))
  rw [Medium.run_write_empty, ← htext] at hfeed
  by_cases hfits : text.size ≤ limit
  · rw [if_pos hfits] at hfeed
    refine ⟨s, m, _, hs, congrArg Ended.sink (htells.heard _ hfeed), ?_, ?_⟩
    · rfl
    · have houtcome : (anneal o strategy schedule source (some s)).outcome = .ok r := by
        rw [htells.heard _ hfeed]
        exact h
      constructor
      · rintro ⟨w, hw⟩
        rw [houtcome] at hw
        cases hw
      · intro hlt
        exact absurd hfits (Nat.not_le_of_lt hlt)
  · rw [if_neg hfits] at hfeed
    obtain ⟨houtcome, hsink⟩ := htells.refused _ _ hfeed
    refine ⟨s, m, _, hs, hsink, ?_, ?_⟩
    · rfl
    · constructor
      · intro _
        exact Nat.lt_of_not_le hfits
      · intro _
        exact ⟨_, houtcome⟩

/-- **Tracing does not interfere** with a search. With a sink that takes every row the search goes
as it goes without one. If it reports a result without a sink, there is one list of rows, which is
what a row log receives; a sink that gives up receives its first rows and the search ends with the
error of the sink, unless there are no more rows than the sink takes; and a trace on a medium with a
limit has written the first bytes of the text of all rows, as many as the limit allows, and the
search ends with an error of the sink exactly if these are not all. That text is a table, in which
each row can be read back. -/
theorem anneal_heedless (o : Objective Float) (strategy : Strategy Float)
    (schedule : Schedule Float) (source : ρ) :
    let silent := anneal o strategy schedule source (none : Option (RowLog Float))
    (∀ (σ : Type) [TraceSink Float σ] (k : σ), Tireless Float k →
      let loud := anneal o strategy schedule source (some k)
      loud.outcome = silent.outcome ∧ loud.source = silent.source ∧ loud.log = silent.log) ∧
    ∀ r, silent.outcome = .ok r → ∃ rows : List (TraceRow Float),
      rows.length = r.iterations + 1 ∧
      (anneal o strategy schedule source (some ({} : RowLog Float))).sink = some ⟨rows.toArray⟩ ∧
      (∀ (σ : Type) [TraceSink Float σ] (n : Nat) (k : σ), TakesOnly Float n k →
        let loud := anneal o strategy schedule source (some k)
        (r.iterations + 1 ≤ n → loud.outcome = .ok r ∧ loud.source = silent.source ∧
          ∃ k', (feed rows).run (some k) = .ok () (some k') ∧ loud.sink = some k') ∧
        ∀ hn : n < rows.length, ∃ k' w k'',
          (feed (rows.take n)).run (some k) = .ok () (some k') ∧
          (TraceSink.record rows[n]).run k' = .error w k'' ∧
          loud.outcome = .error (.error (.trace w)) ∧ loud.sink = some k'') ∧
      Tabulates (traceText rows) rows ∧
      ∀ limit, traceHeader.toUTF8.size ≤ limit →
        let text := (traceText rows).toUTF8
        ∃ s m s', CsvTrace.start { limit := some limit } = .ok s m ∧
          (anneal o strategy schedule source (some s)).sink = some s' ∧
          s'.medium.bytes = text.extract 0 (min limit text.size) ∧
          ((∃ w, (anneal o strategy schedule source (some s)).outcome =
            .error (.error (.trace w))) ↔ limit < text.size) := by
  intro silent
  constructor
  · intro σ _ k hk
    obtain ⟨k', hloud⟩ := anneal_of_tireless (RowLog Float) o strategy schedule source hk
    dsimp only
    rw [hloud]
    exact ⟨rfl, rfl, rfl⟩
  · intro r hr
    refine ⟨o.rows strategy schedule source (r.iterations + 1),
      o.length_rows strategy schedule source _, ?_, ?_, tabulates_traceText _, ?_⟩
    · rw [(anneal_tells hr (some ({} : RowLog Float))).heard _ (run_feed_rowLog _ #[])]
      simp [Ended.withSink]
    · intro σ _ n k hk
      obtain ⟨hlate, hearly⟩ := anneal_of_takesOnly hr hk rfl
      refine ⟨?_, hearly⟩
      intro hn
      obtain ⟨k', hfeed, hloud⟩ := hlate hn
      rw [hloud]
      exact ⟨hr, rfl, k', hfeed, rfl⟩
    · intro limit hlimit
      exact anneal_csvTrace hr hlimit rfl

end Anneal

/-- The trace of the search of two moves. -/
def pairTrace : String :=
  "step,energy,satisfied,unsatisfied,weight\n0,6,0,2,0\n1,2.75,1,1,5\n2,0,2,0,8\n"

theorem pair_traceText :
    (anneal pairObjective .noise pairSchedule allOnes (some ({} : RowLog Float))).sink.map
      (fun log => traceText log.rows.toList) = some pairTrace := by
  decide +kernel

/-- The search of two moves has three rows. A row log and a quota of three rows leave it as it is,
and a quota of one row stops it at the second. A medium of sixty bytes has taken the first sixty and
the search fails; one of seventy-four has taken all of them and it does not. -/
theorem anneal_heedless_pair :
    let silent := anneal pairObjective .noise pairSchedule allOnes (none : Option (RowLog Float))
    ∃ (r : RunResult Float) (rows : List (TraceRow Float)), silent.outcome = .ok r ∧
      rows.length = 3 ∧ Tabulates pairTrace rows ∧
      (let loud := anneal pairObjective .noise pairSchedule allOnes (some ({} : RowLog Float))
       loud.outcome = .ok r ∧ loud.source = silent.source ∧ loud.sink = some ⟨rows.toArray⟩) ∧
      (anneal pairObjective .noise pairSchedule allOnes (some (Quota.mk 3))).outcome = .ok r ∧
      (∃ w, (anneal pairObjective .noise pairSchedule allOnes (some (Quota.mk 1))).outcome =
        .error (.error (.trace w))) ∧
      (∃ s s' : CsvTrace,
        let loud := anneal pairObjective .noise pairSchedule allOnes (some s)
        loud.sink = some s' ∧ s'.medium.bytes = pairTrace.toUTF8.extract 0 60 ∧
          ∃ w, loud.outcome = .error (.error (.trace w))) ∧
      ∃ s s' : CsvTrace,
        let loud := anneal pairObjective .noise pairSchedule allOnes (some s)
        loud.sink = some s' ∧ s'.medium.bytes = pairTrace.toUTF8 ∧
          ¬∃ w, loud.outcome = .error (.error (.trace w)) := by
  obtain ⟨r, hr, hend⟩ := exists_ok_of_map pair_ends
  obtain ⟨hn, -⟩ := Prod.mk.inj hend
  obtain ⟨htireless, hloud⟩ := anneal_heedless pairObjective .noise pairSchedule allOnes
  obtain ⟨houtcome, hsource, -⟩ := htireless (RowLog Float) {} (tireless_rowLog {})
  obtain ⟨rows, hlength, hlog, hquota, htable, htext⟩ := hloud r hr
  have hrows : traceText rows = pairTrace := by
    have htrace := pair_traceText
    rw [hlog] at htrace
    exact Option.some.inj htrace
  have hsize : pairTrace.toUTF8.size = 74 := by decide +kernel
  rw [hn] at hlength
  rw [hrows] at htable htext
  obtain ⟨hlate, -⟩ := hquota Quota 3 (Quota.mk 3) (takesOnly_quota 3)
  obtain ⟨hkept, -⟩ := hlate (by omega)
  obtain ⟨-, hearly⟩ := hquota Quota 1 (Quota.mk 1) (takesOnly_quota 1)
  obtain ⟨-, w, -, -, -, hrefused, -⟩ := hearly (by omega)
  obtain ⟨s, -, s', -, hsink, hbytes, hfails⟩ := htext 60 (by decide)
  obtain ⟨t, -, t', -, hsink', hbytes', hfails'⟩ := htext 74 (by decide)
  refine ⟨r, rows, hr, hlength, htable, ⟨houtcome.trans hr, hsource, hlog⟩, hkept, ⟨w, hrefused⟩,
    ⟨s, s', hsink, ?_, hfails.mpr ?_⟩, t, t', hsink', ?_, fun h => ?_⟩
  · rw [hbytes, hsize]
    rfl
  · rw [hsize]
    decide
  · rw [hbytes', hsize, Nat.min_self, ← hsize, ByteArray.extract_zero_size]
  · exact absurd (hfails'.mp h) (by rw [hsize]; decide)

end WeightedSat
