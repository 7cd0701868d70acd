import Mathlib.Data.List.TakeWhile
import WeightedSat.Proofs.Text.Written

/-!
# The words of a line

Blanks at the ends of a line do not bear on its words, and the first character of a trimmed line is
the first one of its first word. So whatever is read of a line through its words and its first
character depends on the words alone.

## Main definitions

* `opening`: the first character that is not blank

## Main results

* `words_trim`: a trimmed line has the words of the line
* `head?_trim`, `head?_trim_eq_opening`: how a trimmed line begins
-/

namespace WeightedSat.Text

variable {c : Char} {bs cs : List Char}

theorem words_cons_of_isBlank (hc : isBlank c = true) (cs : List Char) :
    words (c :: cs) = words cs := by
  rw [← List.nil_append (c :: cs), words_append_cons [] hc, words_nil, List.nil_append]

theorem words_append_of_isBlank (hbs : ∀ b ∈ bs, isBlank b = true) (cs : List Char) :
    words (cs ++ bs) = words cs := by
  induction bs generalizing cs with
  | nil => rw [List.append_nil]
  | cons b bs ih =>
    have hblank := ih (fun d hd => hbs d (List.mem_cons_of_mem _ hd)) []
    rw [words_append_cons cs (hbs b List.mem_cons_self), ← List.nil_append bs, hblank, words_nil,
      List.append_nil]

theorem words_dropWhile_isBlank (cs : List Char) : words (cs.dropWhile isBlank) = words cs := by
  induction cs with
  | nil => rfl
  | cons c cs ih =>
    rw [List.dropWhile_cons]
    split
    · next hc => rw [ih, words_cons_of_isBlank hc]
    · rfl

/-- A text without its leading blanks is the trimmed one with blanks behind it. -/
theorem exists_trim_append (cs : List Char) :
    ∃ bs, (∀ b ∈ bs, isBlank b = true) ∧ trim cs ++ bs = cs.dropWhile isBlank := by
  refine ⟨((cs.dropWhile isBlank).reverse.takeWhile isBlank).reverse, ?_, ?_⟩
  · intro b hb
    exact List.mem_takeWhile_imp (List.mem_reverse.mp hb)
  · rw [trim, ← List.reverse_append, List.takeWhile_append_dropWhile, List.reverse_reverse]

/-- **Trimming keeps the words.** -/
theorem words_trim (cs : List Char) : words (trim cs) = words cs := by
  obtain ⟨bs, hbs, htrim⟩ := exists_trim_append cs
  rw [← words_dropWhile_isBlank cs, ← htrim, words_append_of_isBlank hbs]

/-- A character that is not blank begins the first word. -/
theorem exists_words_cons (hc : isBlank c = false) (cs : List Char) :
    ∃ w ws, words (c :: cs) = (c :: w) :: ws := by
  have hsplit : c :: cs = (c :: cs.takeWhile (!isBlank ·)) ++ cs.dropWhile (!isBlank ·) := by
    rw [List.cons_append, List.takeWhile_append_dropWhile]
  have hfirst : words (c :: cs.takeWhile (!isBlank ·)) = [c :: cs.takeWhile (!isBlank ·)] := by
    refine words_of_forall ?_ (List.cons_ne_nil _ _)
    intro d hd
    rcases List.mem_cons.mp hd with rfl | hd
    · exact hc
    · simpa using List.mem_takeWhile_imp hd
  cases hrest : cs.dropWhile (!isBlank ·) with
  | nil =>
    refine ⟨cs.takeWhile (!isBlank ·), [], ?_⟩
    rw [hsplit, hrest, List.append_nil, hfirst]
  | cons d ds =>
    have hd : isBlank d = true := by
      have hhead := List.head?_dropWhile_not (!isBlank ·) cs
      rw [hrest] at hhead
      simpa using hhead
    refine ⟨cs.takeWhile (!isBlank ·), words ds, ?_⟩
    rw [hsplit, hrest, words_append_cons _ hd, hfirst]
    rfl

theorem isBlank_of_head?_trim {cs : List Char} (hc : c ∈ (trim cs).head?) : isBlank c = false := by
  obtain ⟨bs, -, htrim⟩ := exists_trim_append cs
  have hhead := List.head?_dropWhile_not isBlank cs
  rw [← htrim, List.head?_append, Option.mem_def.mp hc, Option.some_or] at hhead
  exact hhead

/-- **The first character** of a trimmed line is that of the first word. -/
theorem head?_trim (cs : List Char) : (trim cs).head? = (words cs).head?.bind List.head? := by
  rw [← words_trim cs]
  cases htrim : trim cs with
  | nil => rfl
  | cons c t =>
    have hc : isBlank c = false := isBlank_of_head?_trim (by rw [htrim, List.head?_cons]; rfl)
    obtain ⟨w, ws, hwords⟩ := exists_words_cons hc t
    rw [hwords]
    rfl

/-- The first character of a text that is not blank. -/
def opening (cs : List Char) : Option Char := cs.find? (!isBlank ·)

/-- A trimmed line begins with the first character that is not blank. -/
theorem head?_trim_eq_opening (cs : List Char) : (trim cs).head? = opening cs := by
  rw [head?_trim, ← words_dropWhile_isBlank]
  induction cs with
  | nil => rfl
  | cons c cs ih =>
    rw [List.dropWhile_cons, opening, List.find?_cons]
    cases hc : isBlank c with
    | true => exact ih
    | false =>
      obtain ⟨w, ws, hwords⟩ := exists_words_cons hc cs
      rw [if_neg Bool.false_ne_true, hwords]
      rfl

end WeightedSat.Text
