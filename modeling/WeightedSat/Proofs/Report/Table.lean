import Mathlib.Data.List.Flatten
import WeightedSat.Proofs.Mwcnf.Lines

/-!
# Lines and fields

A text that was written line by line, with separators between the fields of each line, is a table:
it is cut at the line feeds, and each line at its separators. There is one piece more than there are
separators, so the number of pieces tells whether a field has been cut.

A field that may contain separators itself can still be told from those behind it, if these have
none and it is known how many they are. Then they are cut off from the end.

## Main definitions

* `table`: the fields of each line of a text
* `lineOf?`: what a text that is one line holds before its end
* `Text.cutLast?`: the last fields of a line, and what is before them

## Main results

* `Text.length_pieces`, `Text.pieces_append_flatMap`: how many pieces there are, and the last ones
* `Text.intercalate_pieces`: joining undoes cutting
* `Text.cutLast?_append_flatMap`: fields without separators are cut off
-/

namespace WeightedSat

namespace Text

variable {α : Type} {sep : α → Bool} {s : α}

/-- **There is one piece more** than there are separators. -/
theorem length_pieces (xs : List α) : (pieces sep xs).length = xs.countP sep + 1 := by
  induction xs with
  | nil => rfl
  | cons x xs ih =>
    obtain ⟨p, ps, hps⟩ : ∃ p ps, pieces sep xs = p :: ps :=
      List.exists_cons_of_ne_nil (pieces_ne_nil xs)
    rw [hps, List.length_cons, Nat.add_right_cancel_iff] at ih
    rw [pieces_cons, hps, List.countP_cons, ← ih]
    split <;> simp [extend]

/-- Words without separators, each with a separator before it, are the last pieces. -/
theorem pieces_append_flatMap (hs : sep s = true) {ws : List (List α)}
    (hws : ∀ w ∈ ws, ∀ c ∈ w, sep c = false) (xs : List α) :
    pieces sep (xs ++ ws.flatMap (s :: ·)) = pieces sep xs ++ ws := by
  -- Induction on the words: the first of them goes over to what comes before the others.
  induction ws generalizing xs with
  | nil => simp
  | cons w ws ih =>
    rw [List.flatMap_cons, ← List.append_assoc,
      ih (fun v hv => hws v (List.mem_cons_of_mem _ hv)), pieces_append_cons xs hs,
      pieces_of_forall (hws w List.mem_cons_self), List.append_assoc, List.singleton_append]

/-- Cutting each of several sequences makes no more of them exactly if nothing is cut. -/
theorem length_flatMap_pieces_eq_iff (sep : α → Bool) (ls : List (List α)) :
    (ls.flatMap (pieces sep)).length = ls.length ↔ ∀ l ∈ ls, ∀ c ∈ l, sep c = false := by
  have hlength : (ls.flatMap (pieces sep)).length = (ls.map (List.countP sep)).sum + ls.length := by
    induction ls with
    | nil => rfl
    | cons l ls ih =>
      rw [List.flatMap_cons, List.length_append, length_pieces, ih, List.map_cons, List.sum_cons,
        List.length_cons]
      omega
  rw [hlength, Nat.add_eq_right, List.sum_eq_zero_iff_forall_eq_nat]
  simp [List.countP_eq_zero]

/-! ## Cutting from the end -/

variable [BEq α] [LawfulBEq α]

/-- **Joining** the pieces undoes the cutting. -/
theorem intercalate_pieces (s : α) (xs : List α) : [s].intercalate (pieces (· == s) xs) = xs := by
  induction xs with
  | nil => rfl
  | cons x xs ih =>
    obtain ⟨p, ps, hps⟩ : ∃ p ps, pieces (· == s) xs = p :: ps :=
      List.exists_cons_of_ne_nil (pieces_ne_nil xs)
    rw [hps] at ih
    rw [pieces_cons, hps]
    split
    · next hx =>
      rw [List.intercalate_cons_cons, ih, eq_of_beq hx]
      rfl
    · cases ps with
      | nil => simpa [extend] using ih
      | cons q ps =>
        rw [List.intercalate_cons_cons] at ih
        rw [extend, List.intercalate_cons_cons, ← ih]
        rfl

/-- **Cutting off** the last fields, of which there are `k`: what is before them, and they. -/
def cutLast? (s : α) (k : Nat) (xs : List α) : Option (List α × List (List α)) :=
  let ps := pieces (· == s) xs
  if k < ps.length then
    some ([s].intercalate (ps.take (ps.length - k)), ps.drop (ps.length - k))
  else none

/-- **Fields without separators** are cut off, whatever is before them. -/
theorem cutLast?_append_flatMap {ws : List (List α)} (hws : ∀ w ∈ ws, s ∉ w) (xs : List α) :
    cutLast? s ws.length (xs ++ ws.flatMap (s :: ·)) = some (xs, ws) := by
  have hfields : ∀ w ∈ ws, ∀ c ∈ w, (c == s) = false := fun w hw c hc =>
    beq_false_of_ne fun heq => hws w hw (heq ▸ hc)
  have hpieces : pieces (· == s) (xs ++ ws.flatMap (s :: ·)) = pieces (· == s) xs ++ ws :=
    pieces_append_flatMap (by simp) hfields xs
  have hlength : 0 < (pieces (· == s) xs).length := List.length_pos_iff.mpr (pieces_ne_nil xs)
  rw [cutLast?, hpieces, List.length_append, Nat.add_sub_cancel, List.take_left, List.drop_left,
    intercalate_pieces, if_pos (by omega)]

end Text

/-! ## Lines -/

/-- **Table**: the fields of each line of a text, which are its pieces between commas. -/
def table (text : String) : List (List (List Char)) :=
  (Mwcnf.textLines text.toList).map (Text.pieces (· == ','))

/-- **One line**: what is before the line feed at the end of a text. -/
def lineOf? (text : String) : Option (List Char) :=
  if text.toList.getLast? = some '\n' then some text.toList.dropLast else none

theorem lineOf?_eq_some {text : String} {cs : List Char} (h : text.toList = cs ++ ['\n']) :
    lineOf? text = some cs := by
  simp [lineOf?, h]

/-- Lines that are written, each ended by a line feed, end with one. -/
theorem getLast?_flatMap_newline {ls : List (List Char)} (h : ls ≠ []) :
    (ls.flatMap (· ++ ['\n'])).getLast? = some '\n' := by
  obtain ⟨ls, l, rfl⟩ := (ls.eq_nil_or_concat).resolve_left h
  simp

end WeightedSat
