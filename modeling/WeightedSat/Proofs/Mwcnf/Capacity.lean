import WeightedSat.Proofs.Mwcnf.Precedence

/-!
# When reading aborts

Whatever a stream holds, reading it ends with an instance or a load error, but for one thing: a
header that announces more variables than there can be a table of weights for. The table is asked
for as soon as the word `w` begins the weights line, so the reading aborts there, whatever else may
be wrong with the line or behind it.

## Main results

* `read?_eq_fault_iff`: when reading aborts
* `oversized_aborts`: a short text that does it
-/

namespace WeightedSat.Mwcnf

/-- A trimmed line opens with the first character of its first word. -/
theorem head?_of_mem_received {s : Stream} {line w : List Char} {c : Char}
    (hline : some line ∈ s.received) (hw : (Text.words line).head? = some (c :: w)) :
    line.head? = some c := by
  obtain ⟨bytes, -, hbytes⟩ := List.mem_map.mp hline
  obtain ⟨text, -, rfl⟩ := Option.map_eq_some_iff.mp hbytes
  rw [Text.words_trim] at hw
  rw [Text.head?_trim, hw]
  rfl

/-- The end of the lines is no reason to abort. -/
theorem conclude_ne_fault {ls : List Line} (hls : Sound ls) (broken : Bool) (name : String)
    (f : Fault) : (phaseOf ls).conclude broken name ≠ .error (.fault f) := by
  intro h
  cases broken with
  | true => cases h
  | false =>
    cases homission : omission ls with
    | some e => cases (conclude_eq_error hls homission).symm.trans h
    | none =>
      obtain ⟨inst, hinst, -⟩ := exists_conclude_eq_ok hls homission name
      cases hinst.symm.trans h

/-- The failure of a line that aborts the reading. -/
theorem failure?_eq_fault_iff {before : List Line} {l : Line} {f : Fault} :
    failure? before l = some (.fault f) ↔ f = .capacityOverflow ∧ oversized before l = true := by
  unfold failure?
  split
  · next hover => simp [hover, eq_comm]
  · next hover => simp [hover]

/-- Before the weights line the failures are the defects. -/
theorem firstFrom_failure?_of_weightsLine? {before : List Line}
    (hweights : weightsLine? before = none) :
    firstFrom failure? [] before = (firstFrom defect [] before).map .error := by
  refine firstFrom_failure? fun w hw => ?_
  cases hweights.symm.trans hw

/-- **Aborting**: the one thing that is too much for the reader is a table of weights for more
variables than an address space has room for. It is asked for as soon as the word `w` begins the
first line that opens with `w` behind such a header, whatever follows the word, unless a line
before that has a defect. -/
theorem read?_eq_fault_iff (s : Stream) (name : String) (f : Fault) :
    read? s name = .error (.fault f) ↔
      f = .capacityOverflow ∧ ∃ before line after, s.received = before ++ some line :: after ∧
        firstFrom defect [] before = none ∧ weightsLine? before = none ∧
        (Text.words line).head? = some ['w'] ∧ ∃ said ∈ said? before, capacity ≤ said.1 := by
  constructor
  · intro h
    cases hfirst : firstFrom failure? [] s.received with
    | none =>
      rw [read?_of_firstFrom_eq_none hfirst] at h
      exact absurd h (conclude_ne_fault (sound_of_firstFrom hfirst) _ _ _)
    | some e =>
      obtain rfl := Except.error.inj ((read?_of_firstFrom_eq_some hfirst name).symm.trans h)
      obtain ⟨before, l, after, hs, hbefore, hl⟩ := exists_of_firstFrom_eq_some hfirst
      obtain ⟨hf, hover⟩ := failure?_eq_fault_iff.mp hl
      cases l with
      | none => cases hover
      | some line =>
        obtain ⟨hweights, -, hw, hsaid⟩ := oversized_eq_true_iff.mp hover
        rw [List.nil_append] at hweights hsaid
        rw [firstFrom_failure?_of_weightsLine? hweights, Option.map_eq_none_iff] at hbefore
        exact ⟨hf, before, line, after, hs, hbefore, hweights, hw, hsaid⟩
  · rintro ⟨rfl, before, line, after, hs, hbefore, hweights, hw, hsaid⟩
    have hhead : line.head? = some 'w' := head?_of_mem_received (by rw [hs]; simp) hw
    have hnone : firstFrom failure? [] before = none := by
      rw [firstFrom_failure?_of_weightsLine? hweights, hbefore, Option.map_none]
    have hline : failure? ([] ++ before) (some line) = some (.fault .capacityOverflow) :=
      failure?_eq_fault_iff.mpr
        ⟨rfl, oversized_eq_true_iff.mpr ⟨hweights, hhead, hw, hsaid⟩⟩
    refine read?_of_firstFrom_eq_some ?_ name
    rw [hs]
    exact firstFrom_append_cons hnone hline

/-- A weights line without any weight, which is not even looked for. -/
theorem oversized_aborts :
    read? (Stream.ofString "p mwcnf 1152921504606846976 1\nw\n") "x" =
      .error (.fault .capacityOverflow) := by
  decide +kernel

end WeightedSat.Mwcnf
