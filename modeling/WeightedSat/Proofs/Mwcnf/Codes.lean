import WeightedSat.Proofs.Mwcnf.Precedence

/-!
# The codes of a clause line

A clause line is read up to its zero, or up to the first word that is no code. An integer that does
not fit into thirty-two bits is no code, so it ends the clause without a word: what precedes it is
kept, and it is not looked at whether it names a variable. Integers that fit are kept if nothing
before them ends the clause, and then they name variables.

## Main definitions

* `Text.Fits`: the integers that fit into thirty-two bits
* `place`: the number of the clause that is made of a line

## Main results

* `Text.literalCode?_eq_filter`: codes are the integers that fit
* `getElem?_readClause`, `readClause_of_not_fits`: the codes of a line
* `read?_codes`: which integers are literals of the clause that is made of their line
* `wide_code_lost`: a text with an integer that is lost
-/

namespace WeightedSat

namespace Text

/-! ## Integers that fit -/

/-- **Fits**: a word of thirty-two bits has room for an integer. -/
def Fits (z : Int) : Prop := -0x80000000 ≤ z ∧ z ≤ 0x7FFFFFFF

instance : DecidablePred Fits := fun _ => inferInstanceAs (Decidable (_ ∧ _))

/-- Digits with a sign are read up to a limit if their integers are sought within a range that has
the same limit. -/
theorem map_bounded?_eq_filter {limit : Nat} {f : Nat → Int} {p : Int → Bool}
    (hp : ∀ n, p (f n) = true ↔ n ≤ limit) (ds : List Char) :
    (bounded? limit ds).map f = ((digits? ds).map f).filter p := by
  have hlimit : (fun n : Nat => decide (n ≤ limit)) = p ∘ f := by
    ext n
    rw [Function.comp_apply, Bool.eq_iff_iff, decide_eq_true_eq, hp]
  rw [bounded?_eq_filter, Option.filter_map, hlimit]

/-- **Codes** are the integers that fit. -/
theorem literalCode?_eq_filter (cs : List Char) :
    literalCode? cs = (numeral? cs).filter fun z => Fits z := by
  have habove (n : Nat) : decide (Fits (Int.ofNat n)) = true ↔ n ≤ 0x7FFFFFFF := by
    rw [decide_eq_true_eq, Fits, Int.ofNat_eq_natCast]
    omega
  have hbelow (n : Nat) : decide (Fits (-Int.ofNat n)) = true ↔ n ≤ 0x80000000 := by
    rw [decide_eq_true_eq, Fits, Int.ofNat_eq_natCast]
    omega
  unfold literalCode? integer?
  split
  · exact map_bounded?_eq_filter habove _
  · exact map_bounded?_eq_filter hbelow _
  · next hplus hminus =>
    have hnumeral : numeral? cs = (digits? cs).map Int.ofNat := by
      unfold numeral?
      split
      · exact absurd rfl (hplus _)
      · exact absurd rfl (hminus _)
      · rfl
    rw [hnumeral]
    exact map_bounded?_eq_filter habove _

theorem literalCode?_of_fits {w : List Char} {z : Int} (hw : numeral? w = some z) (hz : Fits z) :
    literalCode? w = some z := by
  rw [literalCode?_eq_filter, hw, Option.filter_eq_some_iff]
  exact ⟨rfl, decide_eq_true hz⟩

theorem literalCode?_of_not_fits {w : List Char} {z : Int} (hw : numeral? w = some z)
    (hz : ¬ Fits z) : literalCode? w = none := by
  rw [literalCode?_eq_filter, hw, Option.filter_eq_none_iff]
  rintro y ⟨⟩
  exact fun h => hz (of_decide_eq_true h)

end Text

namespace Mwcnf

open Text (Fits numeral? words)

/-! ## One line -/

section Line

variable {line w : List Char} {ws vs : List (List Char)} {z : Int}

/-- Codes other than zero do not end a clause. -/
theorem takeCodes_append_of_fits
    (hws : ∀ w ∈ ws, ∃ z, numeral? w = some z ∧ z ≠ 0 ∧ Fits z) (vs : List (List Char)) :
    takeCodes (ws ++ vs) = ws.filterMap numeral? ++ takeCodes vs := by
  induction ws with
  | nil => rfl
  | cons w ws ih =>
    obtain ⟨z, hw, hne, hz⟩ := hws w List.mem_cons_self
    rw [List.filterMap_cons_some hw, List.cons_append, List.cons_append, takeCodes,
      Text.literalCode?_of_fits hw hz]
    dsimp only
    rw [if_neg hne, ih fun v hv => hws v (List.mem_cons_of_mem _ hv)]

/-- An integer that does not fit ends the clause: what precedes it is kept. -/
theorem readClause_of_not_fits (hwords : words line = ws ++ w :: vs)
    (hws : ∀ w ∈ ws, ∃ z, numeral? w = some z ∧ z ≠ 0 ∧ Fits z) (hw : numeral? w = some z)
    (hz : ¬ Fits z) : readClause line = ws.filterMap numeral? := by
  rw [readClause, hwords, takeCodes_append_of_fits hws, takeCodes,
    Text.literalCode?_of_not_fits hw hz]
  exact List.append_nil _

/-- An integer that fits is a code at the place of its word. -/
theorem getElem?_readClause (hwords : words line = ws ++ w :: vs)
    (hws : ∀ w ∈ ws, ∃ z, numeral? w = some z ∧ z ≠ 0 ∧ Fits z) (hw : numeral? w = some z)
    (hne : z ≠ 0) (hz : Fits z) : (readClause line)[ws.length]? = some z := by
  have hlength : (ws.filterMap numeral?).length = ws.length := by
    rw [List.filterMap_length_eq_length]
    intro w hw
    obtain ⟨y, hy, -⟩ := hws w hw
    rw [hy]
    rfl
  rw [readClause, hwords, takeCodes_append_of_fits hws, takeCodes, Text.literalCode?_of_fits hw hz]
  dsimp only
  rw [if_neg hne, ← hlength, List.getElem?_append_right (Nat.le_refl _), Nat.sub_self]
  rfl

end Line

/-! ## The clauses of the lines -/

/-- **Place**: how many clauses are made of lines. The clause of the line behind them has this
number. -/
def place (lines : List (List Char)) : Nat :=
  lines.countP fun line => readClause line ≠ []

/-- **The clause of a line** that holds codes. -/
theorem Makes.exists_clause {ls : List Line} {name : String} {inst : Instance}
    (h : Makes ls name inst) {front back : List (List Char)} {line : List Char}
    (hlines : clauseLines ls = front ++ line :: back) (hne : readClause line ≠ []) :
    ∃ c, inst.clauses[place front]? = some c ∧ c.literals.map Literal.code = readClause line := by
  have hplace : ((front.map readClause).filter (· ≠ [])).length = place front := by
    rw [← List.countP_eq_length_filter, List.countP_map]
    rfl
  have hcodes := congrArg (·[place front]?) h.clauses_eq
  rw [hlines, List.map_append, List.filter_append, List.map_cons,
    List.filter_cons_of_pos (by simpa using hne), ← hplace] at hcodes
  simp only [List.getElem?_append_right (Nat.le_refl _), Nat.sub_self, List.getElem?_cons_zero,
    List.getElem?_map] at hcodes
  rw [hplace] at hcodes
  exact Option.map_eq_some_iff.mp hcodes

/-- **Literals that are kept**: an integer that only integers other than zero precede on its line is
a literal of the clause of the line if it fits into thirty-two bits and they do, and then it names a
variable. The first one that does not fit is left out with all that follows. -/
theorem read?_codes {s : Stream} {name : String} {inst : Instance}
    {front back u v : List (List Char)} {line t : List Char} {z : Int}
    (h : read? s name = .ok inst) (hlines : clauseLines s.received = front ++ line :: back)
    (hwords : words line = u ++ t :: v) (hu : ∀ w ∈ u, ∃ y, numeral? w = some y ∧ y ≠ 0)
    (ht : numeral? t = some z) (hz : z ≠ 0) :
    ((∀ w ∈ u ++ [t], ∀ y ∈ numeral? w, Fits y) →
      z.natAbs ≤ inst.numVars ∧ ∃ c, inst.clauses[place front]? = some c ∧
        c.literals.map Literal.code = readClause line ∧
        c.literals[u.length]?.map Literal.code = some z) ∧
    ∀ pre w post, u ++ [t] = pre ++ w :: post → (∀ x ∈ pre, ∀ y ∈ numeral? x, Fits y) →
      (∃ y ∈ numeral? w, ¬ Fits y) →
        readClause line = pre.filterMap numeral? ∧
        (pre ≠ [] → ∃ c, inst.clauses[place front]? = some c ∧
          c.literals.map Literal.code = pre.filterMap numeral?) := by
  have hmakes := makes_of_read? h
  have hall : ∀ w ∈ u ++ [t], ∃ y, numeral? w = some y ∧ y ≠ 0 := by
    intro w hw
    rcases List.mem_append.mp hw with hw | hw
    · exact hu w hw
    · obtain rfl := List.mem_singleton.mp hw
      exact ⟨z, ht, hz⟩
  constructor
  · intro hfits
    have hpre : ∀ w ∈ u, ∃ y, numeral? w = some y ∧ y ≠ 0 ∧ Fits y := by
      intro w hw
      obtain ⟨y, hy, hne⟩ := hu w hw
      exact ⟨y, hy, hne, hfits w (List.mem_append_left _ hw) y hy⟩
    have hcode : (readClause line)[u.length]? = some z :=
      getElem?_readClause hwords hpre ht hz (hfits t (by simp) z ht)
    obtain ⟨c, hc, hcodes⟩ := hmakes.exists_clause hlines (by rintro hnil; simp [hnil] at hcode)
    have hliteral : c.literals[u.length]?.map Literal.code = some z := by
      rw [← List.getElem?_map, hcodes, hcode]
    obtain ⟨l, hl, hlz⟩ := Option.map_eq_some_iff.mp hliteral
    have hvar := inst.var_lt c (List.mem_of_getElem? hc) l (List.mem_of_getElem? hl)
    refine ⟨?_, c, hc, hcodes, hliteral⟩
    rw [← hlz, Literal.natAbs_code]
    exact hvar
  · rintro pre w post hsplit hfits ⟨y, hy, hunfit⟩
    have hpre : ∀ x ∈ pre, ∃ y, numeral? x = some y ∧ y ≠ 0 ∧ Fits y := by
      intro x hx
      obtain ⟨y, hy, hne⟩ := hall x (by rw [hsplit]; exact List.mem_append_left _ hx)
      exact ⟨y, hy, hne, hfits x hx y hy⟩
    have hwords' : words line = pre ++ w :: (post ++ v) := by
      rw [hwords, ← List.singleton_append, ← List.append_assoc, hsplit, List.append_assoc,
        List.cons_append]
    have hcodes : readClause line = pre.filterMap numeral? :=
      readClause_of_not_fits hwords' hpre hy hunfit
    refine ⟨hcodes, fun hne => ?_⟩
    obtain ⟨x, pre, rfl⟩ := List.exists_cons_of_ne_nil hne
    obtain ⟨y, hy, -⟩ := hpre x List.mem_cons_self
    rw [← hcodes]
    exact hmakes.exists_clause hlines (by rw [hcodes, List.filterMap_cons_some hy]; simp)

/-- A text with an integer that does not fit. -/
def wideText : String := "p mwcnf 1 1\nw 1 0\n1 2147483648 0\n"

/-- The integer is left out of the clause, which is made all the same. -/
theorem read?_codes_wide : ∃ inst, read? (Stream.ofString wideText) "x" = .ok inst ∧
    (1 ≤ inst.numVars ∧ ∃ c, inst.clauses[0]? = some c ∧ c.literals[0]?.map Literal.code = some 1) ∧
    ∃ c, inst.clauses[0]? = some c ∧ c.literals.map Literal.code = [1] := by
  have hok : (read? (Stream.ofString wideText) "x").isOk = true := by decide +kernel
  have hlines : clauseLines (Stream.ofString wideText).received =
      [] ++ "1 2147483648 0".toList :: [] := by decide +kernel
  have hwords : words "1 2147483648 0".toList =
      [] ++ "1".toList :: ["2147483648".toList, "0".toList] := by decide +kernel
  have hone : numeral? "1".toList = some 1 := by decide +kernel
  have hwide : numeral? "2147483648".toList = some 2147483648 := by decide +kernel
  cases hread : read? (Stream.ofString wideText) "x" with
  | error e =>
    rw [hread] at hok
    cases hok
  | ok inst =>
    refine ⟨inst, rfl, ?_, ?_⟩
    · obtain ⟨hvar, c, hc, -, hcode⟩ :=
        (read?_codes hread hlines hwords (by simp) hone (by decide)).1 (by decide +kernel)
      exact ⟨hvar, c, hc, hcode⟩
    · have hu : ∀ w ∈ ["1".toList], ∃ y, numeral? w = some y ∧ y ≠ 0 := by
        intro w hw
        obtain rfl := List.mem_singleton.mp hw
        exact ⟨1, hone, by decide⟩
      have hwords' : words "1 2147483648 0".toList =
          ["1".toList] ++ "2147483648".toList :: ["0".toList] := hwords
      obtain ⟨-, hclause⟩ := (read?_codes hread hlines hwords' hu hwide (by decide)).2
        ["1".toList] "2147483648".toList [] rfl (by decide +kernel)
        ⟨2147483648, hwide, by decide⟩
      exact hclause (List.cons_ne_nil _ _)

/-- **A literal that is lost**: the integer names no variable, and the text is read without it. -/
theorem wide_code_lost :
    clauseLines (Stream.ofString wideText).received = ["1 2147483648 0".toList] ∧
      (words "1 2147483648 0".toList).map numeral? = [some 1, some 2147483648, some 0] ∧
      (read? (Stream.ofString wideText) "x").toOption.map
        (fun inst => (inst.numVars, inst.clauses.map fun c => c.literals.map Literal.code)) =
        some (1, [[1]]) := by
  decide +kernel

end Mwcnf

end WeightedSat
