import WeightedSat.Proofs.Mwcnf.Answer

/-!
# The sections of a text

What a line is follows from the lines before it: up to the first line that opens with `p` it may be
the header, then up to the first one that opens with `w` it may be the weights line, and after that
it is a clause. So the phase of the reader is told by the lines that were read, and the reading ends
at the first line that fails in the section where it stands.

## Main definitions

* `first?`, `behind`: the first line that opens with a character, and the lines behind it
* `said?`, `weightsLine?`, `clauseLines`: what the sections of a text say
* `phaseOf`: the phase that lines amount to
* `defect`, `oversized`, `failure?`: how a line fails, judged against the lines before it
* `firstFrom`: the first failure of lines, in their order

## Main results

* `meet_phaseOf`: one line
* `foldlM_meet`: the lines of a text
* `read?_of_firstFrom_eq_some`, `read?_of_firstFrom_eq_none`: how the reading ends
-/

namespace WeightedSat.Mwcnf

/-! ## Sections -/

/-- The first line that opens with a character. -/
def first? (c : Char) (ls : List Line) : Option (List Char) :=
  ls.findSome? fun l => l.filter (·.head? == some c)

/-- The lines behind the first one that opens with a character. -/
def behind (c : Char) : List Line → List Line
  | [] => []
  | l :: ls => if (first? c [l]).isSome then ls else behind c ls

/-- What the header says, which is the first line that opens with `p`. -/
def said? (ls : List Line) : Option (Nat × Nat) :=
  (first? 'p' ls).bind header?

/-- The weights line, which is the first line behind the header that opens with `w`. -/
def weightsLine? (ls : List Line) : Option (List Char) :=
  first? 'w' (behind 'p' ls)

/-- The clause lines, which are the lines behind the weights line without the comments. -/
def clauseLines (ls : List Line) : List (List Char) :=
  ((behind 'w' (behind 'p' ls)).filterMap id).filter (!isComment ·)

/-- **The phase** that lines amount to. -/
def phaseOf (ls : List Line) : Phase :=
  match said? ls with
  | none => .header
  | some (numVars, declared) =>
    match weightsLine? ls with
    | none => .weights numVars declared
    | some w => .clauses numVars declared (Instance.fitWeights numVars (retained numVars w))
        ((clauseLines ls).map readClause).reverse

section Sections

variable {c : Char} {xs ys : List Line} {l : Line} {line : List Char}

@[simp] theorem first?_nil : first? c [] = none := rfl

theorem first?_append : first? c (xs ++ ys) = (first? c xs).or (first? c ys) :=
  List.findSome?_append

theorem first?_singleton (line : List Char) :
    first? c [some line] = if line.head? = some c then some line else none := by
  simp [first?, Option.filter]

theorem first?_cons (l : Line) (xs : List Line) :
    first? c (l :: xs) = (first? c [l]).or (first? c xs) := by
  rw [← first?_append, List.singleton_append]

theorem behind_eq_nil (h : first? c xs = none) : behind c xs = [] := by
  induction xs with
  | nil => rfl
  | cons l xs ih =>
    rw [first?_cons, Option.or_eq_none_iff] at h
    rw [behind, h.1, ih h.2]
    rfl

/-- A line goes behind the first that opens with a character if there is one before. -/
theorem behind_append_of_first? (h : first? c xs = some line) :
    behind c (xs ++ ys) = behind c xs ++ ys := by
  induction xs with
  | nil => cases h
  | cons l xs ih =>
    rw [first?_cons] at h
    rw [List.cons_append, behind, behind]
    cases hl : first? c [l] with
    | some _ => rfl
    | none =>
      rw [hl, Option.none_or] at h
      exact ih h

theorem behind_singleton : behind c [l] = [] := by
  rw [behind]
  split <;> rfl

/-- Nothing is behind a line that is the first one. -/
theorem behind_snoc_of_first? (h : first? c xs = none) : behind c (xs ++ [l]) = [] := by
  induction xs with
  | nil => exact behind_singleton
  | cons k xs ih =>
    rw [first?_cons, Option.or_eq_none_iff] at h
    rw [List.cons_append, behind, h.1]
    exact ih h.2

end Sections

/-! ## One more line -/

section Snoc

variable {before : List Line} {l : Line} {h w : List Char}

theorem said?_eq_none (hp : first? 'p' before = none) : said? before = none := by
  rw [said?, hp, Option.bind_none]

theorem weightsLine?_eq_none (hp : first? 'p' before = none) : weightsLine? before = none := by
  rw [weightsLine?, behind_eq_nil hp, first?_nil]

/-- There is a header before the weights line. -/
theorem exists_first?_of_weightsLine? (hw : weightsLine? before = some w) :
    ∃ h, first? 'p' before = some h := by
  cases hp : first? 'p' before with
  | none => cases (weightsLine?_eq_none hp).symm.trans hw
  | some h => exact ⟨h, rfl⟩

theorem said?_snoc_of_first?_eq_none (hp : first? 'p' before = none) :
    said? (before ++ [l]) = (first? 'p' [l]).bind header? := by
  rw [said?, first?_append, hp, Option.none_or]

theorem weightsLine?_snoc_of_first?_eq_none (hp : first? 'p' before = none) :
    weightsLine? (before ++ [l]) = none := by
  rw [weightsLine?, behind_snoc_of_first? hp, first?_nil]

variable {ls : List Line}

theorem said?_append (hp : first? 'p' before = some h) : said? (before ++ ls) = said? before := by
  rw [said?, said?, first?_append, hp, Option.some_or]

theorem weightsLine?_append (hp : first? 'p' before = some h) :
    weightsLine? (before ++ ls) = (weightsLine? before).or (first? 'w' ls) := by
  rw [weightsLine?, weightsLine?, behind_append_of_first? hp, first?_append]

theorem clauseLines_snoc_of_weightsLine?_eq_none (hp : first? 'p' before = some h)
    (hw : weightsLine? before = none) : clauseLines (before ++ [l]) = [] := by
  rw [clauseLines, behind_append_of_first? hp, behind_snoc_of_first? hw]
  rfl

theorem clauseLines_append (hw : weightsLine? before = some w) :
    clauseLines (before ++ ls) =
      clauseLines before ++ (ls.filterMap id).filter (!isComment ·) := by
  obtain ⟨h, hp⟩ := exists_first?_of_weightsLine? hw
  rw [clauseLines, clauseLines, behind_append_of_first? hp, behind_append_of_first? hw,
    List.filterMap_append, List.filter_append]

end Snoc

/-! ## The phase that lines amount to -/

section Phase

variable {before : List Line} {h w : List Char} {numVars declared : Nat}

theorem phaseOf_eq_header (hsaid : said? before = none) : phaseOf before = .header := by
  rw [phaseOf, hsaid]

theorem phaseOf_eq_weights (hsaid : said? before = some (numVars, declared))
    (hw : weightsLine? before = none) : phaseOf before = .weights numVars declared := by
  rw [phaseOf, hsaid]
  dsimp only
  rw [hw]

theorem phaseOf_eq_clauses (hsaid : said? before = some (numVars, declared))
    (hw : weightsLine? before = some w) :
    phaseOf before = .clauses numVars declared (Instance.fitWeights numVars (retained numVars w))
      ((clauseLines before).map readClause).reverse := by
  rw [phaseOf, hsaid]
  dsimp only
  rw [hw]

end Phase

/-! ## Failures -/

/-- **Defect**: why a line fails, judged against the lines before it. A line has to be text; the
first one that opens with `p` has to be a header; and the first one behind it that opens with `w`
has to have a weight. -/
def defect (before : List Line) : Line → Option LoadError
  | none => some (.unreadable .notText)
  | some line =>
    if (first? 'p' before).isNone then
      if line.head? = some 'p' ∧ (header? line).isNone then
        some (.invalidHeader (String.ofList line))
      else none
    else if (weightsLine? before).isNone then
      if line.head? = some 'w' ∧ hasWeight line = false then some .missingWeights else none
    else none

/-- Whether a line is the weights line, judged against the lines before it, and asks for a table
that is too large. -/
def oversized (before : List Line) : Line → Bool
  | none => false
  | some line =>
    (weightsLine? before).isNone && line.head? == some 'w' &&
      (Text.words line).head? == some ['w'] &&
      (said? before).any fun said => capacity ≤ said.1

/-- How a line ends the reading, if it does. -/
def failure? (before : List Line) (l : Line) : Option (Failure LoadError) :=
  if oversized before l then some (.fault .capacityOverflow) else (defect before l).map .error

/-- A value, unless there is a failure. -/
def barring {α : Type} (e? : Option (Failure LoadError)) (a : α) : Except (Failure LoadError) α :=
  match e? with
  | some e => .error e
  | none => .ok a

/-- **The first failure** of lines, in their order, each judged against those before it. -/
def firstFrom {α β : Type} (judge : List α → α → Option β) (before : List α) :
    List α → Option β
  | [] => none
  | l :: ls => (judge before l).or (firstFrom judge (before ++ [l]) ls)

section First

variable {α β : Type} {judge : List α → α → Option β} {before ls : List α} {b : β}

/-- No failure comes before the first one. -/
theorem exists_of_firstFrom_eq_some (h : firstFrom judge before ls = some b) :
    ∃ pre l post, ls = pre ++ l :: post ∧ firstFrom judge before pre = none ∧
      judge (before ++ pre) l = some b := by
  induction ls generalizing before with
  | nil => cases h
  | cons l ls ih =>
    rw [firstFrom] at h
    cases hl : judge before l with
    | some a =>
      rw [hl, Option.some_or] at h
      refine ⟨[], l, ls, rfl, rfl, ?_⟩
      rw [List.append_nil, hl, h]
    | none =>
      rw [hl, Option.none_or] at h
      obtain ⟨pre, k, post, rfl, hpre, hk⟩ := ih h
      refine ⟨l :: pre, k, post, rfl, ?_, ?_⟩
      · rw [firstFrom, hl, Option.none_or, hpre]
      · rwa [List.append_assoc, List.singleton_append] at hk

theorem firstFrom_append_cons {l : α} {post : List α} (hls : firstFrom judge before ls = none)
    (hl : judge (before ++ ls) l = some b) :
    firstFrom judge before (ls ++ l :: post) = some b := by
  induction ls generalizing before with
  | nil =>
    rw [List.append_nil] at hl
    rw [List.nil_append, firstFrom, hl, Option.some_or]
  | cons k ls ih =>
    rw [firstFrom, Option.or_eq_none_iff] at hls
    rw [List.cons_append, firstFrom, hls.1, Option.none_or]
    refine ih hls.2 ?_
    rwa [List.append_assoc, List.singleton_append]

end First

/-- **Sound lines**: the header says the sizes, and the table of weights is not too large. -/
structure Sound (ls : List Line) : Prop where
  said : ∀ line ∈ first? 'p' ls, (said? ls).isSome
  numVars_lt : ∀ w ∈ weightsLine? ls, ∀ said ∈ said? ls, said.1 < capacity

section Lines

variable {before ls : List Line} {line : List Char}

theorem oversized_eq_true_iff : oversized before (some line) = true ↔
    weightsLine? before = none ∧ line.head? = some 'w' ∧
      (Text.words line).head? = some ['w'] ∧ ∃ said ∈ said? before, capacity ≤ said.1 := by
  simp only [oversized, Bool.and_eq_true, Option.isNone_iff_eq_none, beq_iff_eq,
    Option.any_eq_true, decide_eq_true_eq, and_assoc, Option.mem_def]

theorem sound_nil : Sound [] where
  said _ h := by cases h
  numVars_lt _ h := by cases h

/-- No comment opens with another character. -/
theorem head?_ne_of_isComment {c : Char} (hc : c ≠ 'c') (h : isComment line = true) :
    line.head? ≠ some c := by
  cases line with
  | nil => simp
  | cons d line =>
    intro hd
    obtain rfl := Option.some.inj hd
    exact hc (eq_of_beq h)

/-- Before the header, a comment is a line like the others. -/
theorem meet_header (line : List Char) :
    Phase.header.meet (some line) = Phase.header.heed line := by
  rw [Phase.meet]
  split
  · next hcomment => rw [Phase.heed, if_neg (head?_ne_of_isComment (by decide) hcomment)]
  · rfl

/-- Before the weights line, a comment is a line like the others. -/
theorem meet_weights (numVars declared : Nat) (line : List Char) :
    (Phase.weights numVars declared).meet (some line) =
      (Phase.weights numVars declared).heed line := by
  rw [Phase.meet]
  split
  · next hcomment => rw [Phase.heed, if_neg (head?_ne_of_isComment (by decide) hcomment)]
  · rfl

/-- **A line that may be the header.** -/
theorem meet_of_first?_eq_none (hp : first? 'p' before = none) (line : List Char) :
    (phaseOf before).meet (some line) =
      barring (failure? before (some line)) (phaseOf (before ++ [some line])) := by
  have hover : oversized before (some line) = false := by
    simp [oversized, said?_eq_none hp]
  have hsaid : said? (before ++ [some line]) =
      (if line.head? = some 'p' then some line else none).bind header? := by
    rw [said?_snoc_of_first?_eq_none hp, first?_singleton]
  rw [phaseOf_eq_header (said?_eq_none hp), meet_header, Phase.heed, failure?, hover, defect, hp]
  by_cases hhead : line.head? = some 'p'
  · rw [if_pos hhead] at hsaid ⊢
    cases hline : header? line with
    | none =>
      simp only [hhead, Option.isNone_none, and_self, if_true]
      rfl
    | some said =>
      have hafter := phaseOf_eq_weights (hsaid.trans hline) (weightsLine?_snoc_of_first?_eq_none hp)
      simp only [hafter, hhead, Option.isNone_none, Option.isNone_some, Bool.false_eq_true,
        and_false, if_true, if_false]
      rfl
  · rw [if_neg hhead] at hsaid ⊢
    simp only [phaseOf_eq_header hsaid, hhead, Option.isNone_none, false_and, if_true, if_false]
    rfl

/-- **A line that may be the weights line.** -/
theorem meet_of_weightsLine?_eq_none {h : List Char} {numVars declared : Nat}
    (hp : first? 'p' before = some h) (hsaid : said? before = some (numVars, declared))
    (hw : weightsLine? before = none) (line : List Char) :
    (phaseOf before).meet (some line) =
      barring (failure? before (some line)) (phaseOf (before ++ [some line])) := by
  have hsaid' : said? (before ++ [some line]) = some (numVars, declared) :=
    (said?_append hp).trans hsaid
  have hw' : weightsLine? (before ++ [some line]) =
      if line.head? = some 'w' then some line else none := by
    rw [weightsLine?_append hp, hw, Option.none_or, first?_singleton]
  have hover : oversized before (some line) = true ↔
      line.head? = some 'w' ∧ (Text.words line).head? = some ['w'] ∧ capacity ≤ numVars := by
    simp [oversized_eq_true_iff, hw, hsaid]
  rw [phaseOf_eq_weights hsaid hw, meet_weights, Phase.heed, failure?, defect, hp, hw]
  by_cases hhead : line.head? = some 'w'
  · rw [if_pos hhead] at hw' ⊢
    have hafter := phaseOf_eq_clauses hsaid' hw'
    rw [clauseLines_snoc_of_weightsLine?_eq_none hp hw] at hafter
    rw [weightsOf]
    by_cases hcap : (Text.words line).head? = some ['w'] ∧ capacity ≤ numVars
    · rw [if_pos hcap, if_pos (hover.mpr ⟨hhead, hcap⟩)]
      rfl
    · rw [if_neg hcap, if_neg fun h => hcap (hover.mp h).2]
      cases hweight : hasWeight line with
      | false =>
        simp only [hhead, Option.isNone_none, Option.isNone_some, Bool.false_eq_true, and_self,
          if_true, if_false]
        rfl
      | true =>
        simp only [hafter, Option.isNone_none, Option.isNone_some, Bool.false_eq_true,
          Bool.true_eq_false, and_false, if_true, if_false]
        rfl
  · rw [if_neg hhead] at hw' ⊢
    rw [phaseOf_eq_weights hsaid' hw', if_neg fun h => hhead (hover.mp h).1]
    simp only [hhead, Option.isNone_none, Option.isNone_some, Bool.false_eq_true, false_and,
      if_true, if_false]
    rfl

/-- **A line behind the weights line.** -/
theorem meet_of_weightsLine? {w : List Char} {numVars declared : Nat}
    (hsaid : said? before = some (numVars, declared)) (hw : weightsLine? before = some w)
    (line : List Char) :
    (phaseOf before).meet (some line) =
      barring (failure? before (some line)) (phaseOf (before ++ [some line])) := by
  obtain ⟨h, hp⟩ := exists_first?_of_weightsLine? hw
  have hw' : weightsLine? (before ++ [some line]) = some w := by
    rw [weightsLine?_append hp, hw, Option.some_or]
  have hnone : failure? before (some line) = none := by
    simp [failure?, oversized, defect, hp, hw]
  rw [phaseOf_eq_clauses hsaid hw, phaseOf_eq_clauses ((said?_append hp).trans hsaid) hw',
    clauseLines_append hw, hnone, Phase.meet]
  split
  · next hcomment => simp [hcomment, barring]
  · next hline => simp [hline, barring, Phase.heed]

/-- **One line**, judged against the lines before it. -/
theorem meet_phaseOf (hbefore : Sound before) (l : Line) :
    (phaseOf before).meet l = barring (failure? before l) (phaseOf (before ++ [l])) := by
  cases l with
  | none => rfl
  | some line =>
    cases hp : first? 'p' before with
    | none => exact meet_of_first?_eq_none hp line
    | some h =>
      obtain ⟨⟨numVars, declared⟩, hsaid⟩ := Option.isSome_iff_exists.mp (hbefore.said h hp)
      cases hw : weightsLine? before with
      | none => exact meet_of_weightsLine?_eq_none hp hsaid hw line
      | some w => exact meet_of_weightsLine? hsaid hw line

/-- A line with a weight begins with the word `w`. -/
theorem head?_words_of_hasWeight (h : hasWeight line = true) :
    (Text.words line).head? = some ['w'] := by
  exact eq_of_beq (Bool.and_eq_true_iff.mp h).1

theorem failure?_eq_none {l : Line} (h : failure? before l = none) :
    oversized before l = false ∧ defect before l = none := by
  unfold failure? at h
  split at h
  · cases h
  · next hover => exact ⟨Bool.eq_false_iff.mpr hover, Option.map_eq_none_iff.mp h⟩

/-- The header stays what it is, and a line that becomes one says the sizes. -/
theorem Sound.said_snoc (hbefore : Sound before) (hl : defect before (some line) = none) :
    ∀ h ∈ first? 'p' (before ++ [some line]), (said? (before ++ [some line])).isSome := by
  intro h hh
  cases hp : first? 'p' before with
  | none =>
    rw [said?_snoc_of_first?_eq_none hp]
    rw [first?_append, hp, Option.none_or] at hh
    rw [hh, Option.bind_some]
    rw [first?_singleton] at hh
    split at hh
    · next hhead =>
      obtain rfl := Option.some.inj hh
      simpa [defect, hp, hhead, Option.isSome_iff_ne_none] using hl
    · cases hh
  | some k =>
    rw [said?_append hp]
    exact hbefore.said k hp

/-- A line becomes the weights line only with a table that is not too large. -/
theorem Sound.numVars_lt_snoc (hbefore : Sound before)
    (hover : oversized before (some line) = false) (hl : defect before (some line) = none) :
    ∀ w ∈ weightsLine? (before ++ [some line]), ∀ said ∈ said? (before ++ [some line]),
      said.1 < capacity := by
  intro w hw said hsaid
  cases hp : first? 'p' before with
  | none => cases (weightsLine?_snoc_of_first?_eq_none hp).symm.trans hw
  | some h =>
    rw [said?_append hp, Option.mem_def] at hsaid
    rw [weightsLine?_append hp] at hw
    cases hw' : weightsLine? before with
    | some v => exact hbefore.numVars_lt v hw' said hsaid
    | none =>
      rw [hw', Option.none_or, first?_singleton] at hw
      split at hw
      · next hhead =>
        have hweight : hasWeight line = true := by simpa [defect, hp, hw', hhead] using hl
        simpa [oversized, hw', hsaid, hhead, head?_words_of_hasWeight hweight] using hover
      · cases hw

/-- **Lines stay sound** as long as none fails. -/
theorem Sound.snoc (hbefore : Sound before) {l : Line} (hl : failure? before l = none) :
    Sound (before ++ [l]) := by
  obtain ⟨hover, hdefect⟩ := failure?_eq_none hl
  cases l with
  | none => cases hdefect
  | some line => exact ⟨hbefore.said_snoc hdefect, hbefore.numVars_lt_snoc hover hdefect⟩

/-- **The lines of a text** are read up to the first that fails. -/
theorem foldlM_meet (hbefore : Sound before) :
    ls.foldlM Phase.meet (phaseOf before) =
      barring (firstFrom failure? before ls) (phaseOf (before ++ ls)) := by
  induction ls generalizing before with
  | nil =>
    rw [List.append_nil]
    rfl
  | cons l ls ih =>
    -- The lines behind are judged against one line more, which leaves those before sound.
    rw [List.foldlM_cons, meet_phaseOf hbefore, firstFrom]
    cases hl : failure? before l with
    | some e => rfl
    | none =>
      have hrest := ih (hbefore.snoc hl)
      rw [List.append_assoc, List.singleton_append] at hrest
      exact hrest

theorem Sound.append (hbefore : Sound before)
    (hnone : firstFrom failure? before ls = none) : Sound (before ++ ls) := by
  induction ls generalizing before with
  | nil => rwa [List.append_nil]
  | cons l ls ih =>
    rw [firstFrom, Option.or_eq_none_iff] at hnone
    have hrest := ih (hbefore.snoc hnone.1) hnone.2
    rwa [List.append_assoc, List.singleton_append] at hrest

theorem sound_of_firstFrom (hnone : firstFrom failure? [] ls = none) : Sound ls := by
  simpa using sound_nil.append hnone

end Lines

/-! ## The lines of a stream -/

section Received

variable {s : Stream}

theorem foldlM_meet_header (ls : List Line) :
    ls.foldlM Phase.meet .header = barring (firstFrom failure? [] ls) (phaseOf ls) :=
  foldlM_meet sound_nil

/-- A failure is how the reading ends. -/
theorem read?_of_firstFrom_eq_some {e : Failure LoadError}
    (h : firstFrom failure? [] s.received = some e) (name : String) : read? s name = .error e := by
  rw [read?_eq, foldlM_meet_header, h]
  rfl

/-- Without a failure the reading ends with the lines. -/
theorem read?_of_firstFrom_eq_none (h : firstFrom failure? [] s.received = none) (name : String) :
    read? s name = (phaseOf s.received).conclude s.broken name := by
  rw [read?_eq, foldlM_meet_header, h]
  rfl

end Received

end WeightedSat.Mwcnf
