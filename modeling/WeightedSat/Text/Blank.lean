import WeightedSat.Text.Pieces

/-!
# White space, trimming and words

White space is the property `White_Space` of Unicode.  The zero-width characters and the four
information separators below the space do not have it.
-/

namespace WeightedSat.Text

/-- **Blank**: whether a character has the Unicode property `White_Space`. -/
def isBlank (c : Char) : Bool :=
  let n := c.toNat
  (0x09 ≤ n && n ≤ 0x0D) || n == 0x20 || n == 0x85 || n == 0xA0 || n == 0x1680
    || (0x2000 ≤ n && n ≤ 0x200A) || n == 0x2028 || n == 0x2029 || n == 0x202F || n == 0x205F
    || n == 0x3000

/-- A text without the blanks at its two ends. -/
def trim (cs : List Char) : List Char :=
  ((cs.dropWhile isBlank).reverse.dropWhile isBlank).reverse

/-- **Words**: the longest runs of characters that are not blank, in order. -/
def words (cs : List Char) : List (List Char) :=
  (pieces isBlank cs).filter (!·.isEmpty)

@[simp] theorem words_nil : words [] = [] := rfl

/-- A blank separates the words before it from those after it. -/
theorem words_append_cons (xs : List Char) {c : Char} (hc : isBlank c = true) (ys : List Char) :
    words (xs ++ c :: ys) = words xs ++ words ys := by
  simp only [words, pieces_append_cons xs hc, List.filter_append]

/-- A text without blanks is one word, unless it is empty. -/
theorem words_of_forall {w : List Char} (h : ∀ c ∈ w, isBlank c = false) (hw : w ≠ []) :
    words w = [w] := by
  have hne : w.isEmpty = false := by simpa using hw
  simp [words, pieces_of_forall h, hne]

end WeightedSat.Text
