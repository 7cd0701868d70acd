import WeightedSat.Proofs.Mwcnf.Sections
import WeightedSat.Proofs.Text.Words

/-!
# Layout

Much of a text has no bearing on what is read: comments, what stands before the header and between
header and weights, the kind and amount of white space, what follows the zero that ends a list, and
whether the last line is ended. Texts that differ in such things have the same outcome, which is an
instance or an error without the words of the header that it quotes. The announced number of clauses
bears on nothing but itself.

## Main definitions

* `outcome`: what a text is read as
* `Preamble`, `Interlude`, `Body`: what comes before a line
* `Relayout`: the changes of the lines of a text that have no bearing
* `Redeclared`: the change of the announced number of clauses

## Main results

* `Relayout.alike`: the lines are read alike
* `outcome_layout`: texts of another layout have the same outcome
-/

namespace WeightedSat

/-- A load error without the words that it quotes. -/
def LoadError.unquoted : LoadError → LoadError
  | .invalidHeader _ => .invalidHeader ""
  | e => e

/-- The instance of which another number of clauses was announced. -/
def Instance.redeclare (declared : Nat) (inst : Instance) : Instance :=
  { inst with declaredClauses := declared }

/-- The announced number of clauses bears on nothing else in an instance. -/
theorem Instance.build_redeclare (name : String) (n old declared : Nat) (ws : List Nat)
    (raw : List (List Int)) :
    build name n (some declared) ws raw =
      (build name n (some old) ws raw).map (redeclare declared) := by
  unfold build
  split
  · split
    · split <;> rfl
    · rfl
  · rfl

namespace Mwcnf

open Text (opening words)

/-- **Outcome**: what a text is read as. -/
def outcome (text name : String) : Except (Failure LoadError) Instance :=
  (read? (Stream.ofString text) name).mapError (Failure.map LoadError.unquoted)

/-! ## Changes of layout -/

/-- **Preamble**: lines without a header. -/
def Preamble (before : List (List Char)) : Prop :=
  ∀ l ∈ before, opening l ≠ some 'p'

/-- **Interlude**: the header and what precedes it, and lines behind it without the weights. -/
def Interlude (before : List (List Char)) : Prop :=
  ∃ pre header mid, before = pre ++ header :: mid ∧ Preamble pre ∧ opening header = some 'p' ∧
    ∀ l ∈ mid, opening l ≠ some 'w'

/-- **Body**: the weights line and what precedes it, and lines behind it. -/
def Body (before : List (List Char)) : Prop :=
  ∃ pre weights rest, before = pre ++ weights :: rest ∧ Interlude pre ∧ opening weights = some 'w'

/-- **Relayout**: a change of the lines of a text that has no bearing on what is read. -/
inductive Relayout : List (List Char) → List (List Char) → Prop
  /-- There is one more blank line or comment, anywhere. -/
  | comment {before after : List (List Char)} {l : List Char} (hl : ∀ c ∈ opening l, c = 'c') :
    Relayout (before ++ after) (before ++ l :: after)
  /-- There is one more line before the header. -/
  | preamble {before after : List (List Char)} {l : List Char} (hbefore : Preamble before)
      (hl : opening l ≠ some 'p') :
    Relayout (before ++ after) (before ++ l :: after)
  /-- There is one more line between the header and the weights. -/
  | interlude {before after : List (List Char)} {l : List Char} (hbefore : Interlude before)
      (hl : opening l ≠ some 'w') :
    Relayout (before ++ after) (before ++ l :: after)
  /-- The words of a line have other white space around them. -/
  | spacing {before after : List (List Char)} {l l' : List Char} (hwords : words l = words l') :
    Relayout (before ++ l :: after) (before ++ l' :: after)
  /-- More words follow the zero that ends the weights. -/
  | weightsTail {before after : List (List Char)} {l l' zero : List Char}
      {ws more : List (List Char)} (hbefore : Interlude before) (hl : opening l = some 'w')
      (hwords : words l = ws ++ [zero]) (hzero : Text.count? zero = some 0)
      (hmore : words l' = words l ++ more) :
    Relayout (before ++ l :: after) (before ++ l' :: after)
  /-- More words follow the zero that ends a clause. -/
  | clauseTail {before after : List (List Char)} {l l' zero : List Char}
      {ws more : List (List Char)} (hbefore : Body before)
      (hwords : words l = ws ++ [zero]) (hzero : Text.literalCode? zero = some 0)
      (hmore : words l' = words l ++ more) :
    Relayout (before ++ l :: after) (before ++ l' :: after)

/-- **Redeclared lines**: the header announces another number of clauses. -/
inductive Redeclared (declared : Nat) : List (List Char) → List (List Char) → Prop
  | intro {pre rest : List (List Char)} {header header' format vars clauses clauses' : List Char}
      {more : List (List Char)} {old : Nat} (hpre : Preamble pre)
      (hheader : words header = ['p'] :: format :: vars :: clauses :: more)
      (hheader' : words header' = ['p'] :: format :: vars :: clauses' :: more)
      (hold : Text.count? clauses = some old) (hnew : Text.count? clauses' = some declared) :
    Redeclared declared (pre ++ header :: rest) (pre ++ header' :: rest)

/-! ## Reading alike -/

/-- **Alike**: the same value, or errors that differ at most in the words that they quote. -/
def Alike {α : Type} (x y : Except (Failure LoadError) α) : Prop :=
  x.mapError (Failure.map LoadError.unquoted) = y.mapError (Failure.map LoadError.unquoted)

theorem Alike.bind {α β : Type} {x y : Except (Failure LoadError) α}
    {f g : α → Except (Failure LoadError) β} (hxy : Alike x y)
    (hfg : ∀ a, x = .ok a → Alike (f a) (g a)) : Alike (x >>= f) (y >>= g) := by
  cases x with
  | error e =>
    cases y with
    | error e' => exact congrArg Except.error (Except.error.inj hxy)
    | ok b => cases hxy
  | ok a =>
    cases y with
    | error e' => cases hxy
    | ok b =>
      obtain rfl := Except.ok.inj hxy
      exact hfg a rfl

theorem Alike.of_eq {α : Type} {x y : Except (Failure LoadError) α} (h : x = y) : Alike x y :=
  congrArg _ h

/-- A line of characters as it is received. -/
def arrive (l : List Char) : Line := some (Text.trim l)

/-- The phase behind the lines of a text. -/
def phaseAfter (ls : List (List Char)) : Except (Failure LoadError) Phase :=
  (ls.map arrive).foldlM Phase.meet .header

theorem outcome_eq (text name : String) :
    outcome text name = (phaseAfter (textLines text.toList) >>=
      Phase.conclude false name).mapError (Failure.map LoadError.unquoted) := by
  have hs : (Stream.ofString text).received = (textLines text.toList).map arrive := by
    rw [← String.ofList_toList (s := text), Stream.received_ofString, String.toList_ofList]
    rfl
  rw [outcome, read?_eq, hs]
  rfl

section Reading

variable {before after : List (List Char)} {l l' : List Char} {phase : Phase}

theorem phaseAfter_append (before after : List (List Char)) :
    phaseAfter (before ++ after) =
      phaseAfter before >>= (after.map arrive).foldlM Phase.meet := by
  rw [phaseAfter, phaseAfter, List.map_append, List.foldlM_append]

theorem phaseAfter_append_cons (before after : List (List Char)) (l : List Char) :
    phaseAfter (before ++ l :: after) = phaseAfter before >>= fun phase =>
      phase.meet (arrive l) >>= (after.map arrive).foldlM Phase.meet := by
  rw [phaseAfter_append]
  simp only [List.map_cons, List.foldlM_cons]

/-- A line that is passed over may be there or not. -/
theorem alike_insert (h : ∀ phase, phaseAfter before = .ok phase →
    phase.meet (arrive l) = .ok phase) :
    Alike (phaseAfter (before ++ after)) (phaseAfter (before ++ l :: after)) := by
  rw [phaseAfter_append, phaseAfter_append_cons]
  refine Alike.bind rfl fun phase hphase => Alike.of_eq ?_
  rw [h phase hphase]
  rfl

/-- Of two lines that are met alike one may stand for the other. -/
theorem alike_replace (h : ∀ phase, phaseAfter before = .ok phase →
    Alike (phase.meet (arrive l)) (phase.meet (arrive l'))) :
    Alike (phaseAfter (before ++ l :: after)) (phaseAfter (before ++ l' :: after)) := by
  rw [phaseAfter_append_cons, phaseAfter_append_cons]
  refine Alike.bind rfl fun phase hphase => (h phase hphase).bind fun q _ => rfl

end Reading

/-! ## Where a line stands -/

section Standing

variable {before : List (List Char)} {c : Char} {phase : Phase}

theorem first?_arrive (l : List Char) :
    first? c [arrive l] = if opening l = some c then some (Text.trim l) else none := by
  rw [arrive, first?_singleton, Text.head?_trim_eq_opening]

theorem first?_map_arrive (h : ∀ l ∈ before, opening l ≠ some c) :
    first? c (before.map arrive) = none := by
  induction before with
  | nil => rfl
  | cons l before ih =>
    rw [List.map_cons, first?_cons, first?_arrive, if_neg (h l List.mem_cons_self), Option.none_or]
    exact ih fun k hk => h k (List.mem_cons_of_mem _ hk)

/-- Behind the header there may be the weights line. -/
theorem Interlude.sections (hbefore : Interlude before) :
    ∃ h, first? 'p' (before.map arrive) = some h ∧ weightsLine? (before.map arrive) = none := by
  obtain ⟨pre, header, mid, rfl, hpre, hheader, hmid⟩ := hbefore
  have hp : first? 'p' (pre.map arrive) = none := first?_map_arrive hpre
  have hfirst : first? 'p' (pre.map arrive ++ [arrive header]) = some (Text.trim header) := by
    rw [first?_append, hp, Option.none_or, first?_arrive, if_pos hheader]
  rw [List.map_append, List.map_cons, ← List.singleton_append, ← List.append_assoc]
  refine ⟨Text.trim header, by rw [first?_append, hfirst, Option.some_or], ?_⟩
  rw [weightsLine?_append hfirst, weightsLine?_snoc_of_first?_eq_none hp, Option.none_or,
    first?_map_arrive hmid]

/-- Behind the weights line there are clauses. -/
theorem Body.sections (hbefore : Body before) : ∃ w, weightsLine? (before.map arrive) = some w := by
  obtain ⟨pre, weights, rest, rfl, hpre, hweights⟩ := hbefore
  obtain ⟨h, hp, hw⟩ := hpre.sections
  refine ⟨Text.trim weights, ?_⟩
  rw [List.map_append, List.map_cons, weightsLine?_append hp, hw, Option.none_or, first?_cons,
    first?_arrive, if_pos hweights, Option.some_or]

/-- The phase behind lines is the one that they amount to. -/
theorem eq_phaseOf (h : phaseAfter before = .ok phase) :
    phase = phaseOf (before.map arrive) ∧ Sound (before.map arrive) := by
  rw [phaseAfter, foldlM_meet_header] at h
  cases hfirst : firstFrom failure? [] (before.map arrive) with
  | some e =>
    rw [hfirst] at h
    cases h
  | none =>
    rw [hfirst] at h
    exact ⟨(Except.ok.inj h).symm, sound_of_firstFrom hfirst⟩

theorem Preamble.phase_eq (hbefore : Preamble before) (h : phaseAfter before = .ok phase) :
    phase = .header := by
  obtain ⟨rfl, -⟩ := eq_phaseOf h
  exact phaseOf_eq_header (said?_eq_none (first?_map_arrive hbefore))

theorem Interlude.phase_eq (hbefore : Interlude before) (h : phaseAfter before = .ok phase) :
    ∃ numVars declared, phase = .weights numVars declared := by
  obtain ⟨rfl, hsound⟩ := eq_phaseOf h
  obtain ⟨header, hp, hw⟩ := hbefore.sections
  obtain ⟨⟨numVars, declared⟩, hsaid⟩ := Option.isSome_iff_exists.mp (hsound.said header hp)
  exact ⟨numVars, declared, phaseOf_eq_weights hsaid hw⟩

theorem Body.phase_eq (hbefore : Body before) (h : phaseAfter before = .ok phase) :
    ∃ numVars declared ws reversed, phase = .clauses numVars declared ws reversed := by
  obtain ⟨rfl, hsound⟩ := eq_phaseOf h
  obtain ⟨w, hw⟩ := hbefore.sections
  obtain ⟨header, hp⟩ := exists_first?_of_weightsLine? hw
  obtain ⟨⟨numVars, declared⟩, hsaid⟩ := Option.isSome_iff_exists.mp (hsound.said header hp)
  exact ⟨numVars, declared, _, _, phaseOf_eq_clauses hsaid hw⟩

end Standing

/-! ## One line of another layout -/

section Line

variable {l l' line line' zero : List Char} {ws more : List (List Char)}

theorem isComment_eq (line : List Char) : isComment line = line.head?.all (· == 'c') := by
  cases line <;> rfl

theorem isComment_trim (hl : ∀ c ∈ opening l, c = 'c') : isComment (Text.trim l) = true := by
  rw [isComment_eq, Text.head?_trim_eq_opening, Option.all_eq_true]
  intro c hc
  exact beq_iff_eq.mpr (hl c hc)

/-- The words of a line decide how it is met, but for the words that an error quotes. -/
theorem heed_alike (hwords : words line = words line') (hhead : line.head? = line'.head?)
    (phase : Phase) : Alike (phase.heed line) (phase.heed line') := by
  cases phase with
  | header =>
    have hheader : header? line = header? line' := by rw [header?, header?, hwords]
    rw [Phase.heed, Phase.heed, hhead, hheader]
    split
    · refine Alike.bind ?_ fun _ _ => rfl
      cases header? line' <;> rfl
    · rfl
  | weights numVars declared =>
    have hweights : weightsOf numVars line = weightsOf numVars line' := by
      rw [weightsOf, weightsOf, hasWeight, hasWeight, retained, retained, hwords]
    rw [Phase.heed, Phase.heed, hhead, hweights]
    rfl
  | clauses numVars declared table reversed =>
    rw [Phase.heed, Phase.heed, readClause, readClause, hwords]
    rfl

theorem meet_alike_of_words_eq (hwords : words l = words l') (phase : Phase) :
    Alike (phase.meet (arrive l)) (phase.meet (arrive l')) := by
  have hwords' : words (Text.trim l) = words (Text.trim l') := by
    rw [Text.words_trim, Text.words_trim, hwords]
  have hhead : (Text.trim l).head? = (Text.trim l').head? := by
    rw [Text.head?_trim, Text.head?_trim, hwords]
  rw [arrive, arrive, Phase.meet, Phase.meet, isComment_eq, isComment_eq, hhead]
  split
  · rfl
  · exact heed_alike hwords' hhead phase

/-- More words at the end do not change how a line begins. -/
theorem head?_trim_append (hl : words l ≠ []) (hmore : words l' = words l ++ more) :
    (Text.trim l).head? = (Text.trim l').head? := by
  rw [Text.head?_trim, Text.head?_trim, hmore, List.head?_append_of_ne_nil _ hl]

/-- Nothing is read behind the zero that ends the weights. -/
theorem takeWeights_append (hzero : Text.count? zero = some 0) (n : Nat)
    (ws more : List (List Char)) :
    takeWeights n (ws ++ zero :: more) = takeWeights n (ws ++ [zero]) := by
  induction ws generalizing n with
  | nil =>
    cases n with
    | zero => rfl
    | succ n => simp [takeWeights, hzero]
  | cons w ws ih =>
    cases n with
    | zero => rfl
    | succ n => simp only [List.cons_append, takeWeights, ih]

/-- Nothing is read behind the zero that ends a clause. -/
theorem takeCodes_append (hzero : Text.literalCode? zero = some 0) (ws more : List (List Char)) :
    takeCodes (ws ++ zero :: more) = takeCodes (ws ++ [zero]) := by
  induction ws with
  | nil => simp [takeCodes, hzero]
  | cons w ws ih => simp only [List.cons_append, takeCodes, ih]

/-- What follows the zero of a clause line has no bearing. -/
theorem readClause_append (hwords : words line = ws ++ [zero])
    (hwords' : words line' = ws ++ zero :: more) (hzero : Text.literalCode? zero = some 0) :
    readClause line = readClause line' := by
  rw [readClause, readClause, hwords, hwords', takeCodes_append hzero ws more]

/-- What follows the zero of a weights line has no bearing. -/
theorem weightsOf_append (hwords : words line = ws ++ [zero])
    (hwords' : words line' = ws ++ zero :: more) (hzero : Text.count? zero = some 0) (n : Nat) :
    weightsOf n line = weightsOf n line' := by
  cases ws with
  | nil =>
    have hne : (some zero == some ['w']) = false := by
      refine beq_false_of_ne ?_
      rintro ⟨⟩
      cases hzero
    have hne' : some zero ≠ some ['w'] := ne_of_beq_false hne
    simp [weightsOf, hasWeight, hwords, hwords', hne, hne']
  | cons w ws =>
    have htake := takeWeights_append hzero n ws more
    have hnext : (ws ++ zero :: more).head? = (ws ++ [zero]).head? := by
      cases ws <;> rfl
    simp only [weightsOf, hasWeight, retained, hwords, hwords', List.cons_append, List.head?_cons,
      List.tail_cons, htake, hnext]

end Line

/-! ## Texts of another layout -/

/-- **Lines of another layout are read alike.** -/
theorem Relayout.alike {ls ls' : List (List Char)} (h : Relayout ls ls') :
    Alike (phaseAfter ls) (phaseAfter ls') := by
  cases h with
  | comment hl =>
    refine alike_insert fun phase _ => ?_
    rw [arrive, Phase.meet, isComment_trim hl]
    rfl
  | preamble hbefore hl =>
    refine alike_insert fun phase hphase => ?_
    obtain rfl := hbefore.phase_eq hphase
    rw [arrive, meet_header, Phase.heed, Text.head?_trim_eq_opening, if_neg hl]
  | interlude hbefore hl =>
    refine alike_insert fun phase hphase => ?_
    obtain ⟨numVars, declared, rfl⟩ := hbefore.phase_eq hphase
    rw [arrive, meet_weights, Phase.heed, Text.head?_trim_eq_opening, if_neg hl]
  | spacing hwords => exact alike_replace fun phase _ => meet_alike_of_words_eq hwords phase
  | weightsTail hbefore hl hwords hzero hmore =>
    -- The zero need not be the only one, but it is read as the end at the latest.
    refine alike_replace fun phase hphase => Alike.of_eq ?_
    obtain ⟨numVars, declared, rfl⟩ := hbefore.phase_eq hphase
    have hhead := head?_trim_append (by simp [hwords]) hmore
    rw [hwords, List.append_assoc, List.singleton_append] at hmore
    rw [← Text.words_trim] at hwords hmore
    rw [arrive, arrive, meet_weights, meet_weights, Phase.heed, Phase.heed, hhead,
      weightsOf_append hwords hmore hzero]
  | clauseTail hbefore hwords hzero hmore =>
    refine alike_replace fun phase hphase => Alike.of_eq ?_
    obtain ⟨numVars, declared, table, reversed, rfl⟩ := hbefore.phase_eq hphase
    have hhead := head?_trim_append (by simp [hwords]) hmore
    rw [hwords, List.append_assoc, List.singleton_append] at hmore
    rw [← Text.words_trim] at hwords hmore
    rw [arrive, arrive, Phase.meet, Phase.meet, isComment_eq, isComment_eq, hhead, Phase.heed,
      Phase.heed, readClause_append hwords hmore hzero]

/-! ## The end of the last line -/

/-- One more line feed adds no line, or a blank one. -/
theorem textLines_append_lineFeed (cs : List Char) :
    textLines (cs ++ ['\n']) = textLines cs ∨ textLines (cs ++ ['\n']) = textLines cs ++ [[]] := by
  have hpieces : Text.pieces (· == '\n') (cs ++ ['\n']) =
      Text.pieces (· == '\n') cs ++ [[]] := Text.pieces_append_cons cs (by decide) []
  have hall : textLines (cs ++ ['\n']) = Text.pieces (· == '\n') cs := by
    simp [textLines, hpieces]
  rw [hall]
  by_cases hlast : (Text.pieces (· == '\n') cs).getLast? = some []
  · refine Or.inr ?_
    rw [textLines, if_pos (beq_iff_eq.mpr hlast)]
    exact (List.dropLast_append_getLast? [] hlast).symm
  · refine Or.inl ?_
    rw [textLines, if_neg fun h => hlast (beq_iff_eq.mp h)]

/-! ## Another number of clauses -/

/-- The phase behind a header with another number of clauses. -/
def Phase.redeclare (declared : Nat) : Phase → Phase
  | .header => .header
  | .weights numVars _ => .weights numVars declared
  | .clauses numVars _ ws reversed => .clauses numVars declared ws reversed

section Redeclare

variable {declared : Nat} {phase : Phase}

/-- A line behind the header is met in the same way. -/
theorem Phase.meet_redeclare (hphase : phase ≠ .header) (l : Line) :
    (phase.redeclare declared).meet l = (phase.meet l).map (Phase.redeclare declared) ∧
      phase.meet l ≠ .ok .header := by
  cases l with
  | none => exact ⟨rfl, by rintro ⟨⟩⟩
  | some line =>
    cases phase with
    | header => exact absurd rfl hphase
    | weights numVars old =>
      rw [redeclare, meet_weights, meet_weights, heed, heed]
      split
      · cases weightsOf numVars line with
        | error e => exact ⟨rfl, by rintro ⟨⟩⟩
        | ok ws => exact ⟨rfl, by rintro ⟨⟩⟩
      · exact ⟨rfl, by rintro ⟨⟩⟩
    | clauses numVars old ws reversed =>
      rw [redeclare, Phase.meet, Phase.meet]
      split
      · exact ⟨rfl, by rintro ⟨⟩⟩
      · exact ⟨rfl, by rintro ⟨⟩⟩

/-- The lines behind the header are met in the same way. -/
theorem Phase.foldlM_meet_redeclare (hphase : phase ≠ .header) (ls : List Line) :
    ls.foldlM Phase.meet (phase.redeclare declared) =
      (ls.foldlM Phase.meet phase).map (Phase.redeclare declared) := by
  induction ls generalizing phase with
  | nil => rfl
  | cons l ls ih =>
    obtain ⟨hmeet, hnext⟩ := Phase.meet_redeclare hphase l
    rw [List.foldlM_cons, List.foldlM_cons, hmeet]
    cases hq : phase.meet l with
    | error e => rfl
    | ok q =>
      refine ih ?_
      rintro rfl
      exact hnext hq

theorem Phase.conclude_redeclare (broken : Bool) (name : String) (phase : Phase) :
    (phase.redeclare declared).conclude broken name =
      (phase.conclude broken name).map (Instance.redeclare declared) := by
  unfold Phase.conclude
  split
  · rfl
  · cases phase with
    | header => rfl
    | weights numVars old => rfl
    | clauses numVars old ws reversed =>
      exact Instance.build_redeclare name numVars old declared ws reversed.reverse

end Redeclare

/-- The line of the header says the sizes, or it is quoted. -/
theorem meet_headerLine {l format : List Char} {rest : List (List Char)}
    (hwords : words l = ['p'] :: format :: rest) :
    Phase.header.meet (arrive l) =
      (demand (sizes? rest) (.invalidHeader (String.ofList (Text.trim l)))).map
        fun sizes => .weights sizes.1 sizes.2 := by
  have hhead : (Text.trim l).head? = some 'p' := by
    rw [Text.head?_trim, hwords]
    rfl
  have hline : header? (Text.trim l) = sizes? rest := by
    rw [header?, Text.words_trim, hwords]
    rfl
  rw [arrive, meet_header, Phase.heed, if_pos hhead, hline]
  rfl

/-- **A header with another number of clauses** is met alike but for the number. -/
theorem Redeclared.alike {declared : Nat} {ls ls' : List (List Char)}
    (h : Redeclared declared ls ls') :
    Alike ((phaseAfter ls).map (Phase.redeclare declared)) (phaseAfter ls') := by
  obtain ⟨hpre, hheader, hheader', hold, hnew⟩ := h
  rw [phaseAfter_append_cons, phaseAfter_append_cons]
  cases hphase : phaseAfter _ with
  | error e => rfl
  | ok phase =>
    obtain rfl := hpre.phase_eq hphase
    change Alike ((Phase.header.meet _ >>= _).map _) (Phase.header.meet _ >>= _)
    rw [meet_headerLine hheader, meet_headerLine hheader']
    simp only [sizes?, hold, hnew]
    cases Text.count? _ with
    | none => rfl
    | some numVars =>
      by_cases hzero : numVars = 0
      · simp only [if_pos hzero]
        rfl
      · simp only [if_neg hzero]
        exact Alike.of_eq (Phase.foldlM_meet_redeclare (by rintro ⟨⟩) _).symm

/-- **Layout has no bearing** on what a text is read as: not the lines that are passed over, not
white space, not what follows a zero, and not whether the last line is ended. The announced number
of clauses bears on itself alone. -/
theorem outcome_layout (name : String) :
    (∀ text text', Relayout (textLines text.toList) (textLines text'.toList) →
      outcome text' name = outcome text name) ∧
    (∀ text, outcome (text ++ "\n") name = outcome text name) ∧
    ∀ text text' declared, Redeclared declared (textLines text.toList) (textLines text'.toList) →
      outcome text' name = (outcome text name).map (Instance.redeclare declared) := by
  have halike : ∀ text text', Alike (phaseAfter (textLines text.toList))
      (phaseAfter (textLines text'.toList)) → outcome text' name = outcome text name := by
    intro text text' h
    rw [outcome_eq, outcome_eq]
    exact (h.bind fun _ _ => rfl).symm
  refine ⟨fun text text' h => halike text text' h.alike, fun text => ?_, ?_⟩
  · apply halike
    rw [String.toList_append]
    rcases textLines_append_lineFeed text.toList with hlines | hlines
    · exact Alike.of_eq (congrArg phaseAfter hlines.symm)
    · have hblank : Relayout (textLines text.toList ++ []) (textLines text.toList ++ [[]]) :=
        .comment (by rintro c ⟨⟩)
      rw [List.append_nil] at hblank
      change Alike _ (phaseAfter (textLines (text.toList ++ ['\n'])))
      rw [hlines]
      exact hblank.alike
  · intro text text' declared h
    have hbind := h.alike.bind fun phase _ =>
      (rfl : Alike (phase.conclude false name) (phase.conclude false name))
    rw [outcome_eq, outcome_eq, ← hbind]
    cases phaseAfter (textLines text.toList) with
    | error e => rfl
    | ok phase =>
      change ((phase.redeclare declared).conclude false name).mapError _ = _
      rw [Phase.conclude_redeclare]
      change _ = ((phase.conclude false name).mapError _).map _
      cases phase.conclude false name <;> rfl

/-- A text with a clause of two literals. -/
def plainText : String := "p mwcnf 2 1\nw 3 1 0\n1 -2 0\n"

/-- The same text with carriage returns, without the last line feed, and with words behind the
zero of the clause. -/
def tailedText : String := "p mwcnf 2 1\nw 3 1 0\n1 -2 0 x 7\r"

/-- The same text with another number of clauses. -/
def redeclaredText : String := "p mwcnf 2 9\nw 3 1 0\n1 -2 0\n"

/-- Words behind a zero and white space at the end bear on nothing, and the number of clauses on
itself. -/
theorem outcome_layout_tail :
    (outcome plainText "x").isOk = true ∧ outcome tailedText "x" = outcome plainText "x" ∧
      outcome redeclaredText "x" = (outcome plainText "x").map (Instance.redeclare 9) := by
  have hplain : textLines plainText.toList =
      ["p mwcnf 2 1".toList, "w 3 1 0".toList, "1 -2 0".toList] := by decide +kernel
  have htailed : textLines tailedText.toList =
      ["p mwcnf 2 1".toList, "w 3 1 0".toList, "1 -2 0 x 7\r".toList] := by decide +kernel
  have hredeclared : textLines redeclaredText.toList =
      ["p mwcnf 2 9".toList, "w 3 1 0".toList, "1 -2 0".toList] := by decide +kernel
  refine ⟨by decide +kernel, (outcome_layout "x").1 _ _ ?_, (outcome_layout "x").2.2 _ _ 9 ?_⟩
  · have hwords : words "1 -2 0".toList = ["1".toList, "-2".toList] ++ ["0".toList] := by
      decide +kernel
    have hmore : words "1 -2 0 x 7\r".toList =
        words "1 -2 0".toList ++ ["x".toList, "7".toList] := by decide +kernel
    have hinterlude : Interlude ["p mwcnf 2 1".toList] :=
      ⟨[], "p mwcnf 2 1".toList, [], rfl, by simp [Preamble], by decide +kernel, by simp⟩
    have hbody : Body ["p mwcnf 2 1".toList, "w 3 1 0".toList] :=
      ⟨["p mwcnf 2 1".toList], "w 3 1 0".toList, [], rfl, hinterlude, by decide +kernel⟩
    have hrelayout := @Relayout.clauseTail _ [] _ _ _ _ _ hbody hwords (by decide +kernel) hmore
    rwa [hplain, htailed]
  · have hheader : words "p mwcnf 2 1".toList =
        [['p'], "mwcnf".toList, "2".toList, "1".toList] := by decide +kernel
    have hheader' : words "p mwcnf 2 9".toList =
        [['p'], "mwcnf".toList, "2".toList, "9".toList] := by decide +kernel
    have hredeclares : Redeclared 9
        ([] ++ "p mwcnf 2 1".toList :: ["w 3 1 0".toList, "1 -2 0".toList])
        ([] ++ "p mwcnf 2 9".toList :: ["w 3 1 0".toList, "1 -2 0".toList]) :=
      .intro (by simp [Preamble]) hheader hheader' (show Text.count? _ = some 1 by decide +kernel)
        (by decide +kernel)
    rwa [hplain, hredeclared]

end Mwcnf

end WeightedSat
