import WeightedSat.Proofs.Construction
import WeightedSat.Proofs.Mwcnf.Sections
import WeightedSat.Proofs.Text.Words

/-!
# Which error is reported

Of all that can be wrong with a stream one thing is reported: the first line that has a defect; if
there is none, the failure of the source; and if the source ends well, the first that the text
lacks, of a header, weights, a sum of weights that is a count, and codes that name variables. Where
nothing is wrong there is an instance, which holds what the sections of the text say.

## Main definitions

* `omission`: what a text without a defect lacks
* `Stream.loadError?`: the error of a stream
* `Makes`: the instance that lines make

## Main results

* `makes_of_read?`: the instance that is read
* `read?_eq_error_iff`: the error that is reported
-/

namespace WeightedSat.Mwcnf

/-- **Omission**: what lines without a defect lack when they end. -/
def omission (ls : List Line) : Option LoadError :=
  match said? ls, weightsLine? ls with
  | none, _ => some .missingHeader
  | some _, none => some .missingWeights
  | some (numVars, _), some w =>
    if maxCount < total (retained numVars w) then some .weightOverflow
    else (((clauseLines ls).flatMap readClause).find? fun z => numVars < z.natAbs).map
      (.literalOutOfRange · numVars)

/-- **The error of a stream**: the first defect of its lines, or else the failure of its source, or
else an omission. -/
def Stream.loadError? (s : Stream) : Option LoadError :=
  match firstFrom defect [] s.received with
  | some e => some e
  | none => if s.broken then some (.unreadable .interrupted) else omission s.received

/-- **The instance of lines** holds what their sections say. -/
structure Makes (ls : List Line) (name : String) (inst : Instance) : Prop where
  name_eq : inst.name = name
  said_eq : said? ls = some (inst.numVars, inst.declaredClauses)
  weights_eq : ∃ w, weightsLine? ls = some w ∧
    inst.weights = Instance.fitWeights inst.numVars (retained inst.numVars w)
  clauses_eq : inst.clauses.map (fun c => c.literals.map Literal.code) =
    ((clauseLines ls).map readClause).filter (· ≠ [])

/-! ## The end of the lines -/

section Conclude

variable {ls : List Line} {name : String}

theorem length_takeWeights_le (n : Nat) (ws : List (List Char)) :
    (takeWeights n ws).length ≤ n := by
  fun_induction takeWeights n ws with
  | case1 => exact Nat.le_refl 0
  | case2 => exact Nat.zero_le _
  | case3 => exact Nat.zero_le _
  | case4 => exact Nat.zero_le _
  | case5 n w ws weight hw hcount ih => exact Nat.succ_le_succ ih

theorem zero_notMem_takeCodes (ws : List (List Char)) : 0 ∉ takeCodes ws := by
  fun_induction takeCodes ws with
  | case1 => exact List.not_mem_nil
  | case2 => exact List.not_mem_nil
  | case3 => exact List.not_mem_nil
  | case4 w ws z hz hne ih =>
    intro h
    rcases List.mem_cons.mp h with rfl | h
    · exact hne rfl
    · exact ih h

theorem filter_readClause (lines : List (List Char)) :
    (lines.map readClause).map (fun zs => zs.filter (· ≠ 0)) = lines.map readClause := by
  rw [List.map_map]
  refine List.map_congr_left fun line _ => List.filter_eq_self.mpr fun z hz => ?_
  exact decide_eq_true fun hzero => zero_notMem_takeCodes _ (hzero ▸ hz)

theorem total_fitWeights_retained (n : Nat) (w : List Char) :
    total (Instance.fitWeights n (retained n w)) = total (retained n w) :=
  Instance.total_fitWeights (length_takeWeights_le n _)

/-- Behind the weights line, the end of the lines makes the instance. -/
theorem conclude_phaseOf {numVars declared : Nat} {w : List Char}
    (hsaid : said? ls = some (numVars, declared)) (hw : weightsLine? ls = some w) :
    (phaseOf ls).conclude false name = Instance.build name numVars (some declared)
      (retained numVars w) ((clauseLines ls).map readClause) := by
  rw [phaseOf_eq_clauses hsaid hw]
  change Instance.build name numVars (some declared) _ (List.reverse (List.reverse _)) = _
  rw [List.reverse_reverse, Instance.build_fitWeights]

theorem conclude_eq_error (hls : Sound ls) {e : LoadError} (h : omission ls = some e) :
    (phaseOf ls).conclude false name = .error (.error e) := by
  unfold omission at h
  cases hsaid : said? ls with
  | none =>
    rw [hsaid] at h
    obtain rfl := Option.some.inj h
    rw [phaseOf_eq_header hsaid]
    rfl
  | some said =>
    obtain ⟨numVars, declared⟩ := said
    cases hw : weightsLine? ls with
    | none =>
      rw [hsaid, hw] at h
      obtain rfl := Option.some.inj h
      rw [phaseOf_eq_weights hsaid hw]
      rfl
    | some w =>
      have hn : numVars < capacity := hls.numVars_lt w hw _ hsaid
      rw [hsaid, hw] at h
      rw [conclude_phaseOf hsaid hw]
      dsimp only at h
      split at h
      · next hover =>
        obtain rfl := Option.some.inj h
        rw [← total_fitWeights_retained] at hover
        exact Instance.build_eq_weightOverflow name _ _ hn hover
      · next hover =>
        obtain ⟨z, hz, rfl⟩ := Option.map_eq_some_iff.mp h
        rw [List.flatMap_def] at hz
        rw [← total_fitWeights_retained, Nat.not_lt] at hover
        exact Instance.build_eq_literalOutOfRange name _ hn hover (Instance.clausesOf_eq_error hz)

theorem exists_conclude_eq_ok (hls : Sound ls) (h : omission ls = none) (name : String) :
    ∃ inst, (phaseOf ls).conclude false name = .ok inst ∧ Makes ls name inst := by
  unfold omission at h
  cases hsaid : said? ls with
  | none =>
    rw [hsaid] at h
    cases h
  | some said =>
    obtain ⟨numVars, declared⟩ := said
    cases hw : weightsLine? ls with
    | none =>
      rw [hsaid, hw] at h
      cases h
    | some w =>
      have hn : numVars < capacity := hls.numVars_lt w hw _ hsaid
      rw [hsaid, hw] at h
      dsimp only at h
      split at h
      · cases h
      · next hover =>
        rw [Option.map_eq_none_iff, List.find?_eq_none] at h
        rw [← total_fitWeights_retained, Nat.not_lt] at hover
        have hrange : ∀ zs ∈ (clauseLines ls).map readClause, ∀ z ∈ zs, z.natAbs ≤ numVars := by
          intro zs hzs z hz
          obtain ⟨line, hline, rfl⟩ := List.mem_map.mp hzs
          simpa using h z (List.mem_flatMap.mpr ⟨line, hline, hz⟩)
        obtain ⟨cs, hcs, hcodes⟩ := Instance.clausesOf_eq_ok hrange
        rw [filter_readClause] at hcodes
        have hmade := Instance.build_eq_ok name (some declared) hn hover hcs
        exact ⟨_, (conclude_phaseOf hsaid hw).trans hmade, rfl, hsaid, ⟨w, hw, rfl⟩, hcodes⟩

end Conclude

/-! ## The error of a stream -/

section Error

variable {before ls : List Line} {s : Stream} {name : String}

/-- The table of weights is asked for once there is a weights line. -/
theorem not_oversized {l : Line}
    (hsize : ∀ w ∈ weightsLine? (before ++ l :: ls), ∀ said ∈ said? (before ++ l :: ls),
      said.1 < capacity) : oversized before l = false := by
  cases l with
  | none => rfl
  | some line =>
    refine Bool.eq_false_iff.mpr fun hover => ?_
    obtain ⟨hw, hhead, -, said, hsaid, hcap⟩ := oversized_eq_true_iff.mp hover
    cases hp : first? 'p' before with
    | none => cases (said?_eq_none hp).symm.trans hsaid
    | some h =>
      have hline : weightsLine? (before ++ some line :: ls) = some line := by
        rw [weightsLine?_append hp, hw, Option.none_or, first?_cons, first?_singleton,
          if_pos hhead, Option.some_or]
      have hlt := hsize line hline said ((said?_append hp).trans hsaid)
      omega

/-- Without a table that is too large, the failures are the defects. -/
theorem firstFrom_failure?
    (hsize : ∀ w ∈ weightsLine? (before ++ ls), ∀ said ∈ said? (before ++ ls),
      said.1 < capacity) :
    firstFrom failure? before ls = (firstFrom defect before ls).map .error := by
  induction ls generalizing before with
  | nil => rfl
  | cons l ls ih =>
    have hover := not_oversized hsize
    rw [← List.singleton_append, ← List.append_assoc] at hsize
    rw [firstFrom, firstFrom, ih hsize, failure?, hover]
    cases defect before l <;> rfl

section Bounded

variable (hsize : ∀ said ∈ said? s.received, said.1 < capacity)

include hsize

theorem firstFrom_failure?_received :
    firstFrom failure? [] s.received = (firstFrom defect [] s.received).map .error :=
  firstFrom_failure? fun _ _ => hsize

/-- **The error of a stream** is reported. -/
theorem read?_eq_error {e : LoadError} (h : s.loadError? = some e) (name : String) :
    read? s name = .error (.error e) := by
  have hfail := firstFrom_failure?_received hsize
  unfold Stream.loadError? at h
  cases hfirst : firstFrom defect [] s.received with
  | some e' =>
    rw [hfirst] at h hfail
    obtain rfl := Option.some.inj h
    exact read?_of_firstFrom_eq_some hfail name
  | none =>
    rw [hfirst] at h hfail
    rw [read?_of_firstFrom_eq_none hfail]
    cases hbroken : s.broken with
    | true =>
      rw [hbroken] at h
      obtain rfl := Option.some.inj h
      rfl
    | false =>
      rw [hbroken] at h
      exact conclude_eq_error (sound_of_firstFrom hfail) h

/-- **A stream without an error** is an instance. -/
theorem exists_read?_eq_ok (h : s.loadError? = none) (name : String) :
    ∃ inst, read? s name = .ok inst ∧ Makes s.received name inst := by
  have hfail := firstFrom_failure?_received hsize
  unfold Stream.loadError? at h
  cases hfirst : firstFrom defect [] s.received with
  | some e =>
    rw [hfirst] at h
    cases h
  | none =>
    rw [hfirst] at h hfail
    rw [read?_of_firstFrom_eq_none hfail]
    cases hbroken : s.broken with
    | true =>
      rw [hbroken] at h
      cases h
    | false =>
      rw [hbroken] at h
      exact exists_conclude_eq_ok (sound_of_firstFrom hfail) h name

end Bounded

/-- **What is read** holds what the sections say. -/
theorem makes_of_read? {inst : Instance} (h : read? s name = .ok inst) :
    Makes s.received name inst := by
  cases hfirst : firstFrom failure? [] s.received with
  | some e => cases (read?_of_firstFrom_eq_some hfirst name).symm.trans h
  | none =>
    have hsound := sound_of_firstFrom hfirst
    rw [read?_of_firstFrom_eq_none hfirst] at h
    cases hbroken : s.broken with
    | true =>
      rw [hbroken] at h
      cases h
    | false =>
      rw [hbroken] at h
      cases homission : omission s.received with
      | some e => cases (conclude_eq_error hsound homission).symm.trans h
      | none =>
        obtain ⟨made, hmade, hmakes⟩ := exists_conclude_eq_ok hsound homission name
        obtain rfl := Except.ok.inj (hmade.symm.trans h)
        exact hmakes

end Error

/-- **Precedence**: of all that can be wrong with a stream exactly one thing is reported, and where
nothing is wrong there is an instance. A source that fails never yields one. -/
theorem read?_eq_error_iff (s : Stream) (name : String)
    (hsize : ∀ said ∈ said? s.received, said.1 < capacity) :
    (∀ e, read? s name = .error (.error e) ↔ s.loadError? = some e) ∧
      ((∃ inst, read? s name = .ok inst ∧ Makes s.received name inst) ↔ s.loadError? = none) ∧
      (s.broken = true → ∀ inst, read? s name ≠ .ok inst) := by
  have hnone : ∀ inst, read? s name = .ok inst → s.loadError? = none := by
    intro inst hinst
    cases hs : s.loadError? with
    | none => rfl
    | some e => cases (read?_eq_error hsize hs name).symm.trans hinst
  refine ⟨fun e => ⟨fun he => ?_, fun hs => read?_eq_error hsize hs name⟩,
    ⟨fun ⟨inst, hinst, _⟩ => hnone inst hinst, fun hs => exists_read?_eq_ok hsize hs name⟩, ?_⟩
  · cases hs : s.loadError? with
    | none =>
      obtain ⟨inst, hinst, -⟩ := exists_read?_eq_ok hsize hs name
      cases hinst.symm.trans he
    | some e' =>
      have he' := Except.error.inj ((read?_eq_error hsize hs name).symm.trans he)
      rw [Failure.error.inj he']
  · intro hbroken inst hinst
    have hs := hnone inst hinst
    unfold Stream.loadError? at hs
    rw [if_pos hbroken] at hs
    split at hs <;> cases hs

/-- A text whose weights sum past a count, and with a code that names no variable. -/
def heavyText : String := "p mwcnf 2 1\nw 18446744073709551615 1 0\n3 0\n-"

/-- The same text with weights that sum up to a count. -/
def strangeText : String := "p mwcnf 2 1\nw 18446744073709551614 1 0\n3 0\n-"

/-- The first text with a header that is not one, and the header behind it. -/
def misnumberedText : String :=
  "p mwcnf two 1\np mwcnf 2 1\nw 18446744073709551615 1 0\n3 0\n-"

/-- The sum of the weights is looked at before the codes, unless the source fails in the last line.
A line that is no header comes before either, and a text with nothing wrong but a code is refused
for it. -/
theorem read?_eq_error_heavy :
    read? ⟨heavyText.toUTF8.data.toList, false⟩ "x" = .error (.error .weightOverflow) ∧
      read? ⟨heavyText.toUTF8.data.toList, true⟩ "x" =
        .error (.error (.unreadable .interrupted)) ∧
      read? ⟨strangeText.toUTF8.data.toList, false⟩ "x" =
        .error (.error (.literalOutOfRange 3 2)) ∧
      read? ⟨misnumberedText.toUTF8.data.toList, true⟩ "x" =
        .error (.error (.invalidHeader "p mwcnf two 1")) := by
  refine ⟨?_, ?_, ?_, ?_⟩
  · exact ((read?_eq_error_iff _ _ (by decide +kernel)).1 _).mpr (by decide +kernel)
  · exact ((read?_eq_error_iff _ _ (by decide +kernel)).1 _).mpr (by decide +kernel)
  · exact ((read?_eq_error_iff _ _ (by decide +kernel)).1 _).mpr (by decide +kernel)
  · exact ((read?_eq_error_iff _ _ (by decide +kernel)).1 _).mpr (by decide +kernel)

end WeightedSat.Mwcnf
