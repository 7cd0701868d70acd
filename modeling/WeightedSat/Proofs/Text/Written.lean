import Mathlib.Data.List.Basic
import WeightedSat.Text.Blank
import WeightedSat.Text.Numeral

/-!
# Reading what was written

The decimal digits of a number are read as the number, up to the limit of the reader, and words
with single spaces between them are read as the words.

## Main definitions

* `numeral?`: the integer of any magnitude that a word is
* `IsWord`: characters that are one word
* `spaced`: words with single spaces between them

## Main results

* `bounded?_eq_filter`: digits are read up to a limit
* `count?_toDigits`, `literalCode?_repr`, `numeral?_repr`: numerals are read as what they were
  written for
* `words_spaced`, `trim_spaced`: the words of a line, which has no blanks at its ends
-/

namespace WeightedSat.Text

/-! ## Numerals -/

theorem le_ofDigitChars (cs : List Char) (n : Nat) : n ≤ Nat.ofDigitChars 10 cs n := by
  rw [Nat.ofDigitChars_eq_ofDigitChars_zero]
  calc n
    _ ≤ 10 ^ cs.length * n := Nat.le_mul_of_pos_left n (Nat.pow_pos (by decide))
    _ ≤ 10 ^ cs.length * n + Nat.ofDigitChars 10 cs 0 := Nat.le_add_right _ _

/-- Digits are read in full, or their value is above the limit. -/
theorem boundedFrom?_eq {limit n : Nat} (hn : n ≤ limit) (cs : List Char) :
    boundedFrom? limit n cs =
      if cs.all Char.isDigit ∧ Nat.ofDigitChars 10 cs n ≤ limit then
        some (Nat.ofDigitChars 10 cs n)
      else none := by
  induction cs generalizing n with
  | nil => simp [boundedFrom?, hn]
  | cons c cs ih =>
    rw [boundedFrom?, Nat.ofDigitChars_cons, List.all_cons]
    by_cases hc : c.isDigit = true
    · by_cases hm : 10 * n + (c.toNat - '0'.toNat) ≤ limit
      · simp only [hc, hm, decide_true, Bool.and_self, if_true, Bool.true_and, ih hm]
      · have hvalue := le_ofDigitChars cs (10 * n + (c.toNat - '0'.toNat))
        rw [decide_eq_false hm, Bool.and_false, if_neg Bool.false_ne_true,
          if_neg fun h => hm (Nat.le_trans hvalue h.2)]
    · simp [hc]

/-- Up to a limit, the value of digits is their value without one. -/
theorem bounded?_eq_filter (limit : Nat) (cs : List Char) :
    bounded? limit cs = (digits? cs).filter (· ≤ limit) := by
  have hvalue : digitsValue cs = Nat.ofDigitChars 10 cs 0 := rfl
  rw [bounded?, digits?, hvalue, boundedFrom?_eq (Nat.zero_le limit)]
  cases cs.isEmpty <;> cases cs.all Char.isDigit <;> simp [Option.filter]

theorem isDigit_of_mem_toDigits {n : Nat} {c : Char} (hc : c ∈ Nat.toDigits 10 n) :
    c.isDigit = true :=
  Nat.isDigit_of_mem_toDigits (by decide) (Nat.le_refl 10) hc

theorem digits?_toDigits (n : Nat) : digits? (Nat.toDigits 10 n) = some n := by
  have hdigits : (Nat.toDigits 10 n).all Char.isDigit = true :=
    List.all_eq_true.mpr fun c hc => isDigit_of_mem_toDigits hc
  have hvalue : digitsValue (Nat.toDigits 10 n) = n := Nat.ofDigitChars_ten_toDigits
  simp [digits?, hdigits, hvalue]

theorem bounded?_toDigits {limit n : Nat} (hn : n ≤ limit) :
    bounded? limit (Nat.toDigits 10 n) = some n := by
  rw [bounded?_eq_filter, digits?_toDigits, Option.filter_eq_some_iff]
  exact ⟨rfl, decide_eq_true hn⟩

/-- **Counts** are read as they are written. -/
theorem count?_toDigits {n : Nat} (hn : n ≤ maxCount) :
    count? (Nat.toDigits 10 n) = some n := by
  rw [count?, natural?.eq_def]
  split
  · next ds hds =>
    have hplus := isDigit_of_mem_toDigits (hds ▸ List.mem_cons_self)
    exact absurd hplus (by decide)
  · exact bounded?_toDigits hn

theorem integer?_toDigits {below above n : Nat} (hn : n ≤ above) :
    integer? below above (Nat.toDigits 10 n) = some (n : Int) := by
  rw [integer?.eq_def]
  split
  · next ds hds =>
    have hplus := isDigit_of_mem_toDigits (hds ▸ List.mem_cons_self)
    exact absurd hplus (by decide)
  · next ds hds =>
    have hminus := isDigit_of_mem_toDigits (hds ▸ List.mem_cons_self)
    exact absurd hminus (by decide)
  · rw [bounded?_toDigits hn]
    rfl

theorem integer?_minus_toDigits {below above n : Nat} (hn : n ≤ below) :
    integer? below above ('-' :: Nat.toDigits 10 n) = some (-(n : Int)) := by
  have hminus : integer? below above ('-' :: Nat.toDigits 10 n) =
      (bounded? below (Nat.toDigits 10 n)).map fun m => -Int.ofNat m := rfl
  rw [hminus, bounded?_toDigits hn]
  rfl

/-- **Literal codes** are read as they are written. -/
theorem literalCode?_repr {z : Int} (hlow : -0x80000000 ≤ z) (hhigh : z ≤ 0x7FFFFFFF) :
    literalCode? z.repr.toList = some z := by
  rw [literalCode?, Int.repr_eq_if]
  split
  · next hz =>
    rw [Nat.toList_repr, integer?_toDigits (by omega), Int.toNat_of_nonneg hz]
  · next hz =>
    have hminus : ("-" ++ (-z).toNat.repr).toList = '-' :: Nat.toDigits 10 (-z).toNat := by
      rw [String.toList_append, Nat.toList_repr]
      rfl
    rw [hminus, integer?_minus_toDigits (by omega), Int.toNat_of_nonneg (by omega), Int.neg_neg]

/-- **Numeral**: the integer of any magnitude that digits, with or without a sign, stand for. -/
def numeral? (cs : List Char) : Option Int :=
  match cs with
  | '+' :: ds => (digits? ds).map Int.ofNat
  | '-' :: ds => (digits? ds).map fun n => -Int.ofNat n
  | ds => (digits? ds).map Int.ofNat

theorem numeral?_toDigits (n : Nat) : numeral? (Nat.toDigits 10 n) = some (n : Int) := by
  rw [numeral?.eq_def]
  split
  · next ds hds =>
    have hplus := isDigit_of_mem_toDigits (hds ▸ List.mem_cons_self)
    exact absurd hplus (by decide)
  · next ds hds =>
    have hminus := isDigit_of_mem_toDigits (hds ▸ List.mem_cons_self)
    exact absurd hminus (by decide)
  · rw [digits?_toDigits]
    rfl

/-- **Integers** are read as they are written. -/
theorem numeral?_repr (z : Int) : numeral? z.repr.toList = some z := by
  rw [Int.repr_eq_if]
  split
  · next hz =>
    rw [Nat.toList_repr, numeral?_toDigits, Int.toNat_of_nonneg hz]
  · next hz =>
    have hminus : ("-" ++ (-z).toNat.repr).toList = '-' :: Nat.toDigits 10 (-z).toNat := by
      rw [String.toList_append, Nat.toList_repr]
      rfl
    have hread : numeral? ('-' :: Nat.toDigits 10 (-z).toNat) =
        (digits? (Nat.toDigits 10 (-z).toNat)).map fun n => -Int.ofNat n := rfl
    have hnonneg : Int.ofNat (-z).toNat = -z := Int.toNat_of_nonneg (by omega)
    rw [hminus, hread, digits?_toDigits, Option.map_some, hnonneg, Int.neg_neg]

/-! ## Words -/

/-- **Word**: at least one character, and none of them blank. -/
structure IsWord (w : List Char) : Prop where
  ne_nil : w ≠ []
  isBlank_eq : ∀ c ∈ w, isBlank c = false

/-- Whether characters are a word can be computed. -/
theorem isWord_of_all {w : List Char} (hne : w.isEmpty = false)
    (hall : (w.all fun c => !isBlank c) = true) : IsWord w where
  ne_nil := by simpa using hne
  isBlank_eq := by simpa using hall

theorem isBlank_of_isDigit {c : Char} (h : c.isDigit = true) : isBlank c = false := by
  obtain ⟨hlow, hhigh⟩ : 48 ≤ c.toNat ∧ c.toNat ≤ 57 := by
    simpa [Char.isDigit, UInt32.le_iff_toNat_le] using h
  simp only [isBlank, Bool.or_eq_false_iff, Bool.and_eq_false_iff, decide_eq_false_iff_not,
    beq_eq_false_iff_ne]
  omega

theorem IsWord.notMem {w : List Char} (hw : IsWord w) {c : Char} (hc : isBlank c = true) :
    c ∉ w := by
  intro hmem
  rw [hw.isBlank_eq c hmem] at hc
  cases hc

theorem isWord_toDigits (n : Nat) : IsWord (Nat.toDigits 10 n) where
  ne_nil := Nat.toDigits_ne_nil
  isBlank_eq _ hc := isBlank_of_isDigit (isDigit_of_mem_toDigits hc)

theorem isWord_zero : IsWord ['0'] := isWord_toDigits 0

theorem mem_repr {z : Int} {c : Char} (hc : c ∈ z.repr.toList) : c = '-' ∨ c.isDigit = true := by
  rw [Int.repr_eq_if] at hc
  split at hc
  · rw [Nat.toList_repr] at hc
    exact .inr (isDigit_of_mem_toDigits hc)
  · rw [String.toList_append, Nat.toList_repr] at hc
    rcases List.mem_cons.mp hc with rfl | hc
    · exact .inl rfl
    · exact .inr (isDigit_of_mem_toDigits hc)

theorem isWord_repr (z : Int) : IsWord z.repr.toList where
  ne_nil := by
    rw [Int.repr_eq_if]
    split <;> simp
  isBlank_eq c hc := by
    rcases mem_repr hc with rfl | hc
    · decide
    · exact isBlank_of_isDigit hc

/-- **Spaced words**: each of them with a space behind it, and a last one. -/
def spaced (ws : List (List Char)) (last : List Char) : List Char :=
  ws.flatMap (· ++ [' ']) ++ last

section Spaced

variable {ws : List (List Char)} {last : List Char}

theorem words_spaced (hws : ∀ w ∈ ws, IsWord w) (hlast : IsWord last) :
    words (spaced ws last) = ws ++ [last] := by
  induction ws with
  | nil => exact words_of_forall hlast.isBlank_eq hlast.ne_nil
  | cons w ws ih =>
    have hw := hws w List.mem_cons_self
    have hcons : spaced (w :: ws) last = w ++ ' ' :: spaced ws last := by
      simp [spaced]
    rw [hcons, words_append_cons w (by decide), words_of_forall hw.isBlank_eq hw.ne_nil,
      ih fun v hv => hws v (List.mem_cons_of_mem _ hv)]
    rfl

theorem dropWhile_isBlank_eq_self {cs : List Char} (h : ∀ c ∈ cs.head?, isBlank c = false) :
    cs.dropWhile isBlank = cs := by
  cases cs with
  | nil => rfl
  | cons c cs => exact List.dropWhile_cons_of_neg (by simp [h c rfl])

/-- Nothing is trimmed off a text without blanks at its ends. -/
theorem trim_eq_self {cs : List Char} (hhead : ∀ c ∈ cs.head?, isBlank c = false)
    (hlast : ∀ c ∈ cs.getLast?, isBlank c = false) : trim cs = cs := by
  rw [trim, dropWhile_isBlank_eq_self hhead, dropWhile_isBlank_eq_self, List.reverse_reverse]
  simpa using hlast

/-- The first character of spaced words is the first one of the first word. -/
theorem head?_spaced_cons {w : List Char} (hw : IsWord w) :
    (spaced (w :: ws) last).head? = w.head? := by
  obtain ⟨c, cs, rfl⟩ := List.exists_cons_of_ne_nil hw.ne_nil
  rfl

theorem trim_spaced (hws : ∀ w ∈ ws, IsWord w) (hlast : IsWord last) :
    trim (spaced ws last) = spaced ws last := by
  apply trim_eq_self
  · intro c hc
    cases ws with
    | nil => exact hlast.isBlank_eq c (List.mem_of_mem_head? hc)
    | cons w ws =>
      have hw := hws w List.mem_cons_self
      rw [head?_spaced_cons hw] at hc
      exact hw.isBlank_eq c (List.mem_of_mem_head? hc)
  · intro c hc
    rw [spaced, List.getLast?_append_of_ne_nil _ hlast.ne_nil] at hc
    exact hlast.isBlank_eq c (List.mem_of_mem_getLast? hc)

theorem newline_notMem_spaced (hws : ∀ w ∈ ws, IsWord w) (hlast : IsWord last) :
    '\n' ∉ spaced ws last := by
  have hblank : isBlank '\n' = true := by decide
  intro hc
  rcases List.mem_append.mp hc with hc | hc
  · obtain ⟨w, hw, hc⟩ := List.mem_flatMap.mp hc
    simp [(hws w hw).notMem hblank] at hc
  · exact hlast.notMem hblank hc

end Spaced

end WeightedSat.Text
