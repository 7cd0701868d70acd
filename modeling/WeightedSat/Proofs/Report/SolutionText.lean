import WeightedSat.Proofs.Mwcnf.RoundTrip
import WeightedSat.Proofs.Report.Table
import WeightedSat.Proofs.Session.Accord
import WeightedSat.Proofs.Text.Words

/-!
# The line of a best solution can be read back

The line of a best solution is the identifier, the weight and the codes of the assignment, with a
space before each but the first, and a zero. Identifiers are written as they are: they may contain
spaces and line ends, and may look like weights or codes. What follows the weight is nevertheless a
clause line, which is read as the codes, and they give the assignment back.

The whole line is read from its end. Weights and codes contain no space, so the last space before
them is where the last of them begins; with the number of variables known, the codes are cut off one
by one, then the weight, and the identifier is what remains.

## Main definitions

* `Spells codes a`: the codes are literals of the assignment, one for each variable, all true
* `assignmentOf codes`: the assignment that makes codes true
* `BestSolution.tail`, `BestSolution.figures`: the line after the weight, and the words from it on
* `BestSolution.ofLine?`: what a line tells if it is read from its end

## Main results

* `Spells.assignmentOf_eq`: codes that spell an assignment give it back
* `BestSolution.readClause_tail`: the end of the line is read as the codes
* `Text.append_flatMap_inj`: a text is cut from its end
* `BestSolution.ofLine?_line`: the whole line is read from its end
* `BestSolution.readable_line`: what a line is read as, and what determines it
-/

namespace WeightedSat

/-! ## Cutting from the end -/

namespace Text

variable {α : Type} {s : α} {xs ys w v : List α}

/-- **The last separator** of a sequence is the one with no other behind it. -/
theorem append_cons_inj (hw : s ∉ w) (hv : s ∉ v) (h : xs ++ s :: w = ys ++ s :: v) :
    xs = ys ∧ w = v := by
  rcases List.append_eq_append_iff.mp h with ⟨us, rfl, hrest⟩ | ⟨us, rfl, hrest⟩
  · cases us with
    | nil => exact ⟨(List.append_nil xs).symm, (List.cons.inj hrest).2⟩
    | cons u us =>
      rw [(List.cons.inj hrest).2] at hw
      simp at hw
  · cases us with
    | nil => exact ⟨List.append_nil ys, (List.cons.inj hrest).2.symm⟩
    | cons u us =>
      rw [(List.cons.inj hrest).2] at hv
      simp at hv

/-- **Cutting from the end**: a sequence with a given number of words behind it, each with a
separator before it, is determined by the whole, and so are the words. -/
theorem append_flatMap_inj {ws vs : List (List α)} (hlength : ws.length = vs.length)
    (hws : ∀ w ∈ ws, s ∉ w) (hvs : ∀ v ∈ vs, s ∉ v)
    (h : xs ++ ws.flatMap (s :: ·) = ys ++ vs.flatMap (s :: ·)) : xs = ys ∧ ws = vs := by
  -- Induction on the words: the first of them is the last to be cut off.
  induction ws generalizing vs xs ys with
  | nil =>
    obtain rfl := List.length_eq_zero_iff.mp hlength.symm
    exact ⟨by simpa using h, rfl⟩
  | cons w ws ih =>
    obtain ⟨v, vs, rfl⟩ := List.exists_cons_of_length_eq_add_one hlength.symm
    have hcut : (xs ++ s :: w) ++ ws.flatMap (s :: ·) = (ys ++ s :: v) ++ vs.flatMap (s :: ·) := by
      simpa using h
    obtain ⟨hfirst, rfl⟩ := ih (Nat.succ.inj hlength)
      (fun u hu => hws u (List.mem_cons_of_mem _ hu))
      (fun u hu => hvs u (List.mem_cons_of_mem _ hu)) hcut
    obtain ⟨rfl, rfl⟩ :=
      append_cons_inj (hws w List.mem_cons_self) (hvs v List.mem_cons_self) hfirst
    exact ⟨rfl, rfl⟩

/-- A space before each word is a space before the first and one between any two. -/
theorem flatMap_cons_append_cons (ws : List (List Char)) (last : List Char) :
    ws.flatMap (' ' :: ·) ++ ' ' :: last = ' ' :: spaced ws last := by
  induction ws with
  | nil => rfl
  | cons w ws ih =>
    rw [List.flatMap_cons, List.append_assoc, ih]
    simp [spaced]

end Text

/-! ## Codes of an assignment -/

/-- **Spelling**: there is a code for each variable of an assignment, in order, and its literal is
true. -/
structure Spells (codes : List Int) (a : Assignment) : Prop where
  length_eq : codes.length = a.size
  exists_literal : ∀ (i : Nat) (z : Int), codes[i]? = some z →
    ∃ l, Literal.ofCode? z = some l ∧ l.var = i ∧ l.value a = .ok true

/-- The assignment that makes codes true, one for each variable. -/
def assignmentOf (codes : List Int) : Assignment := (codes.map fun z => decide (0 < z)).toArray

theorem Literal.positive_of_ofCode? {z : Int} {l : Literal} (h : ofCode? z = some l) :
    l.positive = decide (0 < z) := by
  unfold ofCode? at h
  split at h
  · cases h
  · cases h
    rfl

theorem Literal.value_eq_ok_true_iff {l : Literal} {a : Assignment} :
    l.value a = .ok true ↔ a[l.var]? = some l.positive := by
  unfold value
  cases a[l.var]? with
  | none => simp
  | some b => simp

/-- **Codes that spell an assignment** give it back. -/
theorem Spells.assignmentOf_eq {codes : List Int} {a : Assignment} (h : Spells codes a) :
    assignmentOf codes = a := by
  refine Array.ext_getElem? fun i => ?_
  cases hcode : codes[i]? with
  | none =>
    have hsize : a.size ≤ i := h.length_eq ▸ List.getElem?_eq_none_iff.mp hcode
    simp [assignmentOf, hcode, hsize]
  | some z =>
    obtain ⟨l, hl, rfl, hvalue⟩ := h.exists_literal i z hcode
    rw [Literal.value_eq_ok_true_iff.mp hvalue, Literal.positive_of_ofCode? hl]
    simp [assignmentOf, hcode]

theorem length_codesFrom (v : Nat) (bs : List Bool) : (codesFrom v bs).length = bs.length := by
  induction bs generalizing v with
  | nil => rfl
  | cons b bs ih => rw [codesFrom, List.length_cons, List.length_cons, ih]

namespace BestSolution

variable (s : BestSolution)

theorem length_codes : s.codes.length = s.assignment.size := by
  rw [codes, length_codesFrom, Array.length_toList]

/-- **The codes of a solution** spell its assignment. -/
theorem spells_codes : Spells s.codes s.assignment where
  length_eq := s.length_codes
  exists_literal := by
    intro i z hz
    rw [getElem?_codes] at hz
    obtain ⟨b, hb, rfl⟩ := Option.map_eq_some_iff.mp hz
    exact ⟨⟨i, b⟩, Literal.ofCode?_code _, rfl, Literal.value_eq_ok_true_iff.mpr hb⟩

variable {s}

/-- Each code is that of a literal of the assignment. -/
theorem exists_of_mem_codes {z : Int} (hz : z ∈ s.codes) :
    ∃ v < s.assignment.size, ∃ b, Literal.code ⟨v, b⟩ = z := by
  obtain ⟨i, hi⟩ := List.mem_iff_getElem?.mp hz
  rw [getElem?_codes] at hi
  obtain ⟨b, hb, hcode⟩ := Option.map_eq_some_iff.mp hi
  exact ⟨i, (Array.getElem?_eq_some_iff.mp hb).1, b, hcode⟩

theorem ne_zero_of_mem_codes : ∀ z ∈ s.codes, z ≠ 0 := by
  rintro z hz rfl
  obtain ⟨v, -, b, hcode⟩ := exists_of_mem_codes hz
  have hnone := Literal.ofCode?_code ⟨v, b⟩
  rw [hcode] at hnone
  cases hnone

/-- Up to the greatest number of thirty-two bits, the codes have room in them. -/
theorem range_of_mem_codes (hsize : s.assignment.size ≤ 0x7FFFFFFF) :
    ∀ z ∈ s.codes, -0x80000000 ≤ z ∧ z ≤ 0x7FFFFFFF := by
  intro z hz
  obtain ⟨v, hv, b, rfl⟩ := exists_of_mem_codes hz
  cases b
  · simp only [Literal.code, Bool.false_eq_true, if_false, Int.ofNat_eq_natCast]
    omega
  · simp only [Literal.code, if_true, Int.ofNat_eq_natCast]
    omega

/-! ## The line -/

variable (s)

/-- The line after the weight: the codes and the zero, each with a space before it. -/
def tail : String := String.join (s.codes.map fun z => " " ++ toString z) ++ " 0\n"

/-- The words from the weight on, without the zero. -/
def figures : List (List Char) :=
  Nat.toDigits 10 s.bestWeight :: s.codes.map fun z => z.repr.toList

/-- **Reading a line** from its end, with the number of variables known: the last word is a zero, as
many codes as variables are before it, and before them the weight. -/
def ofLine? (n : Nat) (line : String) : Option (String × Nat × List Int) := do
  let body ← lineOf? line
  let (name, words) ← Text.cutLast? ' ' (n + 2) body
  let weight ← words.head? >>= Text.digits?
  let codes ← words.tail.mapM Text.numeral?
  if codes.getLast? = some 0 then pure (String.ofList name, weight, codes.dropLast) else none

theorem line_eq : s.line = s.instanceId ++ " " ++ toString s.bestWeight ++ s.tail := by
  rw [line, tail, String.append_assoc]

theorem toList_tail : s.tail.toList = ' ' :: (Mwcnf.numbersText s.codes ++ ['\n']) := by
  have hwords : s.tail.toList =
      (s.codes.map fun z => z.repr.toList).flatMap (' ' :: ·) ++ ' ' :: ['0', '\n'] := by
    simp [tail, String.toList_join, List.flatMap_map]
  rw [hwords, Text.flatMap_cons_append_cons, Mwcnf.numbersText, Text.spaced, Text.spaced,
    List.append_assoc]
  rfl

theorem toList_line :
    s.line.toList = (s.instanceId.toList ++ s.figures.flatMap (' ' :: ·)) ++ " 0\n".toList := by
  simp [line, figures, String.toList_join, List.flatMap_map, Nat.toList_repr]

variable {s}

/-- **The end of the line** is read as the codes. -/
theorem readClause_tail (hsize : s.assignment.size ≤ 0x7FFFFFFF) :
    Mwcnf.readClause s.tail.toList = s.codes := by
  have hspace : Text.isBlank ' ' = true := rfl
  have hend : ∀ c ∈ ['\n'], Text.isBlank c = true := List.forall_mem_singleton.mpr rfl
  have hwords : Text.words s.tail.toList = Text.words (Mwcnf.numbersText s.codes) := by
    rw [toList_tail, Text.words_cons_of_isBlank hspace, Text.words_append_of_isBlank hend]
  rw [Mwcnf.readClause, hwords]
  exact Mwcnf.readClause_numbersText ne_zero_of_mem_codes (range_of_mem_codes hsize)

theorem space_notMem_figures : ∀ w ∈ s.figures, ' ' ∉ w := by
  intro w hw
  have hword : Text.IsWord w := by
    rcases List.mem_cons.mp hw with rfl | hw
    · exact Text.isWord_toDigits _
    · exact Mwcnf.isWord_numbersText w hw
  exact hword.notMem rfl

/-- **The line** is read back from its end, whatever the identifier is and however many variables
there are. -/
theorem ofLine?_line (s : BestSolution) :
    ofLine? s.assignment.size s.line = some (s.instanceId, s.bestWeight, s.codes) := by
  have hbody : s.line.toList =
      (s.instanceId.toList ++ (s.figures ++ [['0']]).flatMap (' ' :: ·)) ++ ['\n'] := by
    simp [toList_line]
  have hwords : ∀ w ∈ s.figures ++ [['0']], ' ' ∉ w := by
    intro w hw
    rcases List.mem_append.mp hw with hw | hw
    · exact space_notMem_figures w hw
    · rw [List.mem_singleton.mp hw]
      decide
  have hlength : (s.figures ++ [['0']]).length = s.assignment.size + 2 := by
    simp [figures, length_codes]
  have hcut := Text.cutLast?_append_flatMap hwords s.instanceId.toList
  have hcodes : ((s.figures ++ [['0']]).tail).mapM Text.numeral? = some (s.codes ++ [0]) := by
    have hzero : Text.numeral? ['0'] = some 0 := rfl
    have hread : (s.codes.map fun z => z.repr.toList).mapM Text.numeral? = some s.codes := by
      simp only [List.mapM_map, Function.comp_def, Text.numeral?_repr]
      exact List.mapM_pure.trans (congrArg some (List.map_id s.codes))
    simp [figures, List.mapM_append, hread, hzero]
  rw [hlength] at hcut
  have hweight : (s.figures ++ [['0']]).head?.bind Text.digits? = some s.bestWeight :=
    Text.digits?_toDigits s.bestWeight
  simp only [ofLine?, lineOf?_eq_some hbody, hcut, hweight, hcodes, Option.bind_eq_bind,
    Option.bind_some]
  simp

theorem eq_of_figures_eq {t : BestSolution} (h : s.figures = t.figures) :
    s.bestWeight = t.bestWeight ∧ s.assignment = t.assignment := by
  obtain ⟨hdigits, hreprs⟩ := List.cons.inj h
  constructor
  · have hweight := congrArg Text.digits? hdigits
    rw [Text.digits?_toDigits, Text.digits?_toDigits] at hweight
    exact Option.some.inj hweight
  · have hcodes := congrArg (List.map Text.numeral?) hreprs
    simp only [List.map_map, Function.comp_def, Text.numeral?_repr] at hcodes
    rw [← s.spells_codes.assignmentOf_eq, ← t.spells_codes.assignmentOf_eq,
      (List.map_inj_right fun _ _ => Option.some.inj).mp hcodes]

/-- Lines of solutions with equally many variables determine them. -/
theorem eq_of_line_eq {t : BestSolution} (hsize : s.assignment.size = t.assignment.size)
    (h : s.line = t.line) : s = t := by
  have hlength : s.figures.length = t.figures.length := by
    simp [figures, length_codes, hsize]
  have hchars := congrArg String.toList h
  rw [toList_line, toList_line] at hchars
  obtain ⟨hid, hfigures⟩ := Text.append_flatMap_inj hlength space_notMem_figures
    space_notMem_figures (List.append_cancel_right hchars)
  obtain ⟨hweight, hassignment⟩ := eq_of_figures_eq hfigures
  cases s
  cases t
  obtain rfl := String.toList_inj.mp hid
  obtain rfl := hweight
  obtain rfl := hassignment
  rfl

/-- **The line of a best solution can be read back.** Up to the greatest variable that a code of
thirty-two bits can name, and whatever the identifier and the weight are, the line is the
identifier, a space, the weight and a tail, which is read as a clause line with one code for each
variable; each code names its variable and is true, so the codes give the assignment back. And among
the solutions with the same number of variables, none but the solution itself has this line. -/
theorem readable_line (s : BestSolution) :
    (s.assignment.size ≤ 0x7FFFFFFF →
      ∃ tail : String, s.line = s.instanceId ++ " " ++ toString s.bestWeight ++ tail ∧
        Spells (Mwcnf.readClause tail.toList) s.assignment ∧
        assignmentOf (Mwcnf.readClause tail.toList) = s.assignment) ∧
    ∀ t : BestSolution, t.assignment.size = s.assignment.size → t.line = s.line →
      t.instanceId = s.instanceId ∧ t.bestWeight = s.bestWeight ∧ t.assignment = s.assignment := by
  constructor
  · intro hsize
    have hspells : Spells (Mwcnf.readClause s.tail.toList) s.assignment := by
      rw [readClause_tail hsize]
      exact s.spells_codes
    exact ⟨s.tail, s.line_eq, hspells, hspells.assignmentOf_eq⟩
  · intro t hsize hline
    obtain rfl := eq_of_line_eq hsize hline
    exact ⟨rfl, rfl, rfl⟩

/-- A solution whose identifier looks like the end of another line. -/
def misleading : BestSolution := ⟨"x 4 1 0\n5 -1 2", 6, #[true, false]⟩

theorem readable_line_misleading :
    misleading.line = "x 4 1 0\n5 -1 2 6 1 -2 0\n" ∧
      (∃ tail : String, misleading.line = "x 4 1 0\n5 -1 2" ++ " " ++ toString 6 ++ tail ∧
        assignmentOf (Mwcnf.readClause tail.toList) = #[true, false]) ∧
      (⟨"x 4 1 0\n5 -1", 2, #[true, false]⟩ : BestSolution).line ≠ misleading.line := by
  obtain ⟨hread, hunique⟩ := readable_line misleading
  obtain ⟨tail, hline, -, hassignment⟩ := hread (by decide)
  refine ⟨by decide +kernel, ⟨tail, hline, hassignment⟩, fun heq => ?_⟩
  obtain ⟨hid, -, -⟩ := hunique ⟨"x 4 1 0\n5 -1", 2, #[true, false]⟩ rfl heq
  exact absurd hid (by decide)

/-- With different numbers of variables the lines may be the same. -/
example : (⟨"x 1", 1, #[]⟩ : BestSolution).line = (⟨"x", 1, #[true]⟩ : BestSolution).line := by
  decide +kernel

end BestSolution

end WeightedSat
