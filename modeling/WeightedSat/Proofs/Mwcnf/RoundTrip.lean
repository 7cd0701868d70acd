import WeightedSat.Proofs.Action
import WeightedSat.Proofs.Construction
import WeightedSat.Proofs.Mwcnf.Lines
import WeightedSat.Proofs.Text.Written

/-!
# Reading undoes rendering

The plainest text of a document is read as the instance that the document makes. Each of its lines
consists of spaced words, of which the first says what the line is, and the last ends the list of
the others; each line takes the phase of the reader to the next one with exactly what the line was
written for.

## Main definitions

* `Document.Plain`: documents that make an instance, with numbers that the reader can hold
* `Document.lines`: the lines of the plainest text

## Main results

* `Document.toList_render`: the text is its lines
* `Phase.take_headerText`, `Phase.succeeds_take_weightsText`, `Phase.take_numbersText`: what the
  lines are read as
* `Document.succeeds_readDocument_render`: the document that is read
* `Document.read_render`: the instance that is read
-/

namespace WeightedSat.Mwcnf

open Text (IsWord isWord_toDigits isWord_zero spaced)

/-! ## The lines of a rendering -/

/-- A list of numbers, ended by a zero. -/
def numbersText (zs : List Int) : List Char := spaced (zs.map fun z => z.repr.toList) ['0']

namespace Document

variable (d : Document)

/-- The numbers of variables and clauses. -/
def headerText : List Char :=
  spaced [['p'], "mwcnf".toList, Nat.toDigits 10 d.numVars] (Nat.toDigits 10 d.declaredClauses)

/-- The weights, ended by a zero. -/
def weightsText : List Char := spaced (['w'] :: d.weights.map (Nat.toDigits 10)) ['0']

/-- **The lines of the plainest text**. -/
def lines : List (List Char) := d.headerText :: d.weightsText :: d.clauses.map numbersText

theorem toList_headerLine : d.headerLine.toList = d.headerText ++ ['\n'] := by
  simp [headerLine, headerText, spaced]

theorem toList_numbersLine (zs : List Int) :
    (numbersLine zs).toList = numbersText zs ++ ['\n'] := by
  simp [numbersLine, numbersText, spaced, String.toList_join, List.flatMap_map]

theorem toList_weightsLine : d.weightsLine.toList = d.weightsText ++ ['\n'] := by
  rw [weightsLine, String.toList_append, toList_numbersLine]
  simp [numbersText, weightsText, spaced, List.flatMap_map, Int.repr_eq_if]

theorem toList_render : d.render.toList = d.lines.flatMap (· ++ ['\n']) := by
  simp [render, lines, toList_headerLine, toList_weightsLine, toList_numbersLine,
    String.toList_join, List.flatMap_map]

/-! ## Plain documents -/

/-- **Plain document**: its numbers are in the ranges of the reader, its codes name its variables,
and none of the numbers in a list is the zero that ends the list. -/
structure Plain (d : Document) : Prop where
  numVars_pos : 0 < d.numVars
  numVars_lt : d.numVars < capacity
  declaredClauses_le : d.declaredClauses ≤ maxCount
  length_weights_le : d.weights.length ≤ d.numVars
  weight_pos : ∀ w ∈ d.weights, 0 < w
  total_weights_le : total d.weights ≤ maxCount
  code_ne_zero : ∀ zs ∈ d.clauses, ∀ z ∈ zs, z ≠ 0
  code_range : ∀ zs ∈ d.clauses, ∀ z ∈ zs, -0x80000000 ≤ z ∧ z ≤ 0x7FFFFFFF
  natAbs_code_le : ∀ zs ∈ d.clauses, ∀ z ∈ zs, z.natAbs ≤ d.numVars

namespace Plain

variable {d : Document}

theorem numVars_le (hd : d.Plain) : d.numVars ≤ maxCount :=
  Nat.le_trans (Nat.le_of_lt hd.numVars_lt) (by decide)

theorem weight_le (hd : d.Plain) : ∀ w ∈ d.weights, w ≤ maxCount := fun _ hw =>
  Nat.le_trans (le_total_of_mem hw) hd.total_weights_le

end Plain

end Document

/-! ## Reading the lines -/

/-- A line that is trimmed and no comment is a significant one. -/
theorem Phase.take_eq_advance (phase : Phase) {cs : List Char} (htrim : Text.trim cs = cs)
    (hcomment : isComment cs = false) : phase.take cs = phase.advance cs := by
  simp [take, htrim, hcomment]

section Header

variable {d : Document}

theorem isWord_headerText :
    ∀ w ∈ [['p'], "mwcnf".toList, Nat.toDigits 10 d.numVars], IsWord w := by
  intro w hw
  simp only [List.mem_cons, List.not_mem_nil, or_false] at hw
  rcases hw with rfl | rfl | rfl
  · exact Text.isWord_of_all rfl (by decide)
  · exact Text.isWord_of_all rfl (by decide)
  · exact isWord_toDigits _

theorem readHeader_headerText (hd : d.Plain) :
    readHeader d.headerText = pure (d.numVars, d.declaredClauses) := by
  have hwords : Text.words d.headerText = [['p'], "mwcnf".toList, Nat.toDigits 10 d.numVars,
      Nat.toDigits 10 d.declaredClauses] :=
    Text.words_spaced isWord_headerText (isWord_toDigits _)
  have hne : d.numVars ≠ 0 := Nat.ne_of_gt hd.numVars_pos
  simp [readHeader, hwords, Text.count?_toDigits hd.numVars_le,
    Text.count?_toDigits hd.declaredClauses_le, hne]

/-- **The header line** says the numbers of variables and clauses. -/
theorem Phase.take_headerText (hd : d.Plain) :
    Phase.header.take d.headerText = pure (.weights d.numVars d.declaredClauses) := by
  have htrim : Text.trim d.headerText = d.headerText :=
    Text.trim_spaced isWord_headerText (isWord_toDigits _)
  have hhead : d.headerText.head? = some 'p' := rfl
  rw [take_eq_advance _ htrim rfl]
  simp [advance, hhead, readHeader_headerText hd]

end Header

section Weights

variable {d : Document}

theorem takeWeights_eq {n : Nat} {ws : List Nat} {rest : List (List Char)} (hlen : ws.length ≤ n)
    (hpos : ∀ w ∈ ws, 0 < w) (hle : ∀ w ∈ ws, w ≤ maxCount) :
    takeWeights n (ws.map (Nat.toDigits 10) ++ ['0'] :: rest) = ws := by
  have hzero : Text.count? ['0'] = some 0 := by decide
  induction ws generalizing n with
  | nil =>
    cases n with
    | zero => rfl
    | succ n => simp [takeWeights, hzero]
  | cons w ws ih =>
    obtain ⟨n, rfl⟩ : ∃ m, n = m + 1 := ⟨n - 1, by simp at hlen; omega⟩
    obtain ⟨w, rfl⟩ : ∃ v, w = v + 1 := ⟨w - 1, by have := hpos w List.mem_cons_self; omega⟩
    have hcount := Text.count?_toDigits (hle (w + 1) List.mem_cons_self)
    have hrest := ih (Nat.le_of_succ_le_succ hlen) (fun v hv => hpos v (List.mem_cons_of_mem _ hv))
      fun v hv => hle v (List.mem_cons_of_mem _ hv)
    rw [List.map_cons, List.cons_append, takeWeights, hcount]
    exact congrArg _ hrest

theorem isWord_weightsText : ∀ w ∈ ['w'] :: d.weights.map (Nat.toDigits 10), IsWord w := by
  rintro w hw
  rcases List.mem_cons.mp hw with rfl | hw
  · exact Text.isWord_of_all rfl (by decide)
  · obtain ⟨n, -, rfl⟩ := List.mem_map.mp hw
    exact isWord_toDigits n

theorem succeeds_readWeights_weightsText (hd : d.Plain) (ns : Array Notice) :
    Succeeds (readWeights d.numVars d.weightsText) ns
      fun ws _ => ws = Instance.fitWeights d.numVars d.weights := by
  have hwords : Text.words d.weightsText =
      ['w'] :: (d.weights.map (Nat.toDigits 10) ++ [['0']]) :=
    Text.words_spaced isWord_weightsText isWord_zero
  have hfirst : ((d.weights.map (Nat.toDigits 10) ++ [['0']]).head?.bind Text.count?).isNone =
      false := by
    have hle := hd.weight_le
    cases hws : d.weights with
    | nil => rfl
    | cons w ws =>
      rw [hws] at hle
      simp [Text.count?_toDigits (hle w List.mem_cons_self)]
  have htake : takeWeights d.numVars (d.weights.map (Nat.toDigits 10) ++ [['0']]) = d.weights :=
    takeWeights_eq hd.length_weights_le hd.weight_pos hd.weight_le
  simp only [readWeights, hwords, hfirst, htake, if_neg (Nat.not_le.mpr hd.numVars_lt)]
  by_cases hshort : d.weights.length < d.numVars
  · rw [if_pos hshort]
    exact ⟨_, _, rfl, rfl⟩
  · rw [if_neg hshort]
    exact ⟨_, _, rfl, rfl⟩

/-- **The weights line** says the weights, with zeros for those that are missing. -/
theorem Phase.succeeds_take_weightsText (hd : d.Plain) (declared : Nat) (ns : Array Notice) :
    Succeeds ((Phase.weights d.numVars declared).take d.weightsText) ns fun p _ =>
      p = .clauses d.numVars declared (Instance.fitWeights d.numVars d.weights) [] := by
  have htrim : Text.trim d.weightsText = d.weightsText :=
    Text.trim_spaced isWord_weightsText isWord_zero
  have hhead : d.weightsText.head? = some 'w' := rfl
  rw [take_eq_advance _ htrim rfl]
  simp only [advance, hhead, if_pos]
  refine (succeeds_readWeights_weightsText hd ns).bind ?_
  rintro ws ns rfl
  exact Succeeds.pure rfl

end Weights

section Clauses

variable {zs : List Int}

theorem isWord_numbersText : ∀ w ∈ zs.map fun z => z.repr.toList, IsWord w := by
  rintro w hw
  obtain ⟨z, -, rfl⟩ := List.mem_map.mp hw
  exact Text.isWord_repr z

theorem takeCodes_eq {rest : List (List Char)} (hne : ∀ z ∈ zs, z ≠ 0)
    (hrange : ∀ z ∈ zs, -0x80000000 ≤ z ∧ z ≤ 0x7FFFFFFF) :
    takeCodes (zs.map (fun z => z.repr.toList) ++ ['0'] :: rest) = zs := by
  induction zs with
  | nil =>
    have hzero : Text.literalCode? ['0'] = some 0 := by decide
    simp [takeCodes, hzero]
  | cons z zs ih =>
    obtain ⟨hlow, hhigh⟩ := hrange z List.mem_cons_self
    have hrest := ih (fun y hy => hne y (List.mem_cons_of_mem _ hy))
      fun y hy => hrange y (List.mem_cons_of_mem _ hy)
    rw [List.map_cons, List.cons_append, takeCodes, Text.literalCode?_repr hlow hhigh]
    dsimp only
    rw [if_neg (hne z List.mem_cons_self), hrest]

theorem readClause_numbersText (hne : ∀ z ∈ zs, z ≠ 0)
    (hrange : ∀ z ∈ zs, -0x80000000 ≤ z ∧ z ≤ 0x7FFFFFFF) : readClause (numbersText zs) = zs := by
  have hwords : Text.words (numbersText zs) = zs.map (fun z => z.repr.toList) ++ [['0']] :=
    Text.words_spaced isWord_numbersText isWord_zero
  rw [readClause, hwords]
  exact takeCodes_eq hne hrange

theorem isComment_numbersText (zs : List Int) : isComment (numbersText zs) = false := by
  cases zs with
  | nil => rfl
  | cons z zs =>
    obtain ⟨c, cs, hcs⟩ := List.exists_cons_of_ne_nil (Text.isWord_repr z).ne_nil
    have htext : ∃ rest, numbersText (z :: zs) = c :: rest := by
      simp [numbersText, spaced, hcs]
    obtain ⟨rest, hrest⟩ := htext
    have hne : c ≠ 'c' := by
      rintro rfl
      rcases Text.mem_repr (hcs ▸ List.mem_cons_self) with h | h
      · exact absurd h (by decide)
      · exact absurd h (by decide)
    rw [hrest]
    exact beq_false_of_ne hne

/-- **A clause line** says the codes of the clause. -/
theorem Phase.take_numbersText (hne : ∀ z ∈ zs, z ≠ 0)
    (hrange : ∀ z ∈ zs, -0x80000000 ≤ z ∧ z ≤ 0x7FFFFFFF) (numVars declared : Nat) (ws : List Nat)
    (reversed : List (List Int)) :
    (Phase.clauses numVars declared ws reversed).take (numbersText zs) =
      pure (.clauses numVars declared ws (zs :: reversed)) := by
  have htrim : Text.trim (numbersText zs) = numbersText zs :=
    Text.trim_spaced isWord_numbersText isWord_zero
  rw [take_eq_advance _ htrim (isComment_numbersText zs), advance,
    readClause_numbersText hne hrange]

/-- Clause lines are collected last line first. -/
theorem foldlM_take_numbersText {raw : List (List Int)} (hne : ∀ zs ∈ raw, ∀ z ∈ zs, z ≠ 0)
    (hrange : ∀ zs ∈ raw, ∀ z ∈ zs, -0x80000000 ≤ z ∧ z ≤ 0x7FFFFFFF) (numVars declared : Nat)
    (ws : List Nat) (reversed : List (List Int)) :
    (raw.map numbersText).foldlM Phase.take (.clauses numVars declared ws reversed) =
      pure (.clauses numVars declared ws (raw.reverse ++ reversed)) := by
  induction raw generalizing reversed with
  | nil => rfl
  | cons zs raw ih =>
    rw [List.map_cons, List.foldlM_cons,
      Phase.take_numbersText (hne zs List.mem_cons_self) (hrange zs List.mem_cons_self), pure_bind,
      ih (fun ys hys => hne ys (List.mem_cons_of_mem _ hys))
        fun ys hys => hrange ys (List.mem_cons_of_mem _ hys)]
    simp

end Clauses

/-! ## Reading a rendering -/

namespace Document

variable {d : Document}

theorem newline_notMem_lines : ∀ l ∈ d.lines, '\n' ∉ l := by
  intro l hl
  simp only [lines, List.mem_cons, List.mem_map] at hl
  rcases hl with rfl | rfl | ⟨zs, -, rfl⟩
  · exact Text.newline_notMem_spaced isWord_headerText (isWord_toDigits _)
  · exact Text.newline_notMem_spaced isWord_weightsText isWord_zero
  · exact Text.newline_notMem_spaced isWord_numbersText isWord_zero

/-- **The document that is read** has a weight for each variable. -/
theorem succeeds_readDocument_render (hd : d.Plain) (ns : Array Notice) :
    Succeeds (readDocument (Stream.ofString d.render)) ns fun doc _ =>
      doc = { d with weights := Instance.fitWeights d.numVars d.weights } := by
  rw [← String.ofList_toList (s := d.render), readDocument_ofString, toList_render,
    textLines_written newline_notMem_lines, lines, List.foldlM_cons, Phase.take_headerText hd,
    pure_bind, List.foldlM_cons, bind_assoc]
  refine (Phase.succeeds_take_weightsText hd d.declaredClauses ns).bind ?_
  rintro p ns rfl
  rw [foldlM_take_numbersText hd.code_ne_zero hd.code_range, pure_bind]
  refine Succeeds.pure ?_
  simp

/-- The instance that is read is the one that the document makes. -/
theorem read?_render_eq_ok (hd : d.Plain) {name : String} {inst : Instance}
    (hinst : d.toInstance name = .ok inst) : read? (Stream.ofString d.render) name = .ok inst := by
  have hfit : ({ d with weights := Instance.fitWeights d.numVars d.weights } : Document).toInstance
      name = .ok inst := (Instance.build_fitWeights ..).trans hinst
  have hread : Succeeds (read (Stream.ofString d.render) name) #[] fun i _ => i = inst := by
    refine (succeeds_readDocument_render hd #[]).bind ?_
    rintro doc ns rfl
    rw [hfit]
    dsimp only
    split
    · exact ⟨_, _, rfl, rfl⟩
    · exact ⟨_, _, rfl, rfl⟩
  obtain ⟨i, ns, hrun, rfl⟩ := hread
  rw [read?, hrun]

/-- **Reading undoes rendering.** The text of a plain document is read as the instance that holds
the weights, filled with zeros, and the clauses that are not empty, all of them in order: the one
that is made of them directly, but for the announced number of clauses. -/
theorem read_render (hd : d.Plain) (name : String) :
    ∃ inst, read? (Stream.ofString d.render) name = .ok inst ∧
      inst.name = name ∧ inst.numVars = d.numVars ∧ inst.declaredClauses = d.declaredClauses ∧
      inst.weights = d.weights ++ List.replicate (d.numVars - d.weights.length) 0 ∧
      inst.totalWeight = total d.weights ∧
      inst.clauses.map (fun c => c.literals.map Literal.code) = d.clauses.filter (· ≠ []) ∧
      Instance.ofParts name d.numVars d.weights d.clauses =
        .ok { inst with declaredClauses := inst.numClauses } := by
  obtain ⟨cs, hcs, hcodes⟩ := Instance.clausesOf_eq_ok hd.natAbs_code_le
  have htotal := Instance.total_fitWeights hd.length_weights_le
  have hws : total (Instance.fitWeights d.numVars d.weights) ≤ maxCount := by
    rw [htotal]
    exact hd.total_weights_le
  have hkept : (d.clauses.map fun zs => zs.filter (· ≠ 0)) = d.clauses := by
    refine (List.map_congr_left fun zs hzs => ?_).trans (List.map_id d.clauses)
    exact List.filter_eq_self.mpr fun z hz => by simpa using hd.code_ne_zero zs hzs z hz
  have hmade := Instance.build_eq_ok name (some d.declaredClauses) hd.numVars_lt hws hcs
  refine ⟨_, read?_render_eq_ok hd hmade, rfl, rfl, rfl,
    Instance.fitWeights_eq_append hd.length_weights_le, htotal, ?_,
    Instance.build_eq_ok name none hd.numVars_lt hws hcs⟩
  rw [hcodes, hkept]

/-- A document with the largest numbers, a clause without codes and one that repeats a code. -/
def extreme : Document where
  numVars := 2147483648
  declaredClauses := 18446744073709551615
  weights := [18446744073709551614, 1]
  clauses := [[-2147483648, 2147483647], [], [1, -2, 1]]

def extremeText : String :=
  "p mwcnf 2147483648 18446744073709551615\nw 18446744073709551614 1 0\n" ++
    "-2147483648 2147483647 0\n0\n1 -2 1 0\n"

theorem render_extreme : extreme.render = extremeText := by
  decide +kernel

theorem plain_extreme : extreme.Plain where
  numVars_pos := by decide
  numVars_lt := by decide
  declaredClauses_le := by decide
  length_weights_le := by decide
  weight_pos := by decide
  total_weights_le := by decide
  code_ne_zero := by decide
  code_range := by decide
  natAbs_code_le := by decide

theorem read_render_extreme :
    ∃ inst, read? (Stream.ofString extremeText) "extreme" = .ok inst ∧
      inst.numVars = 2147483648 ∧ inst.totalWeight = maxCount ∧
      inst.clauses.map (fun c => c.literals.map Literal.code) =
        [[-2147483648, 2147483647], [1, -2, 1]] := by
  obtain ⟨inst, hread, -, hvars, -, -, htotal, hcodes, -⟩ := read_render plain_extreme "extreme"
  rw [render_extreme] at hread
  exact ⟨inst, hread, hvars, htotal, hcodes⟩

end Document

end WeightedSat.Mwcnf
