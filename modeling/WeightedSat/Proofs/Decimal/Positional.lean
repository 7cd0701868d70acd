import Mathlib.Data.List.TakeWhile
import WeightedSat.Decimal.Reading
import WeightedSat.Decimal.Shortest
import WeightedSat.Proofs.Text.Written

/-!
# Reading positional decimals

A decimal is written as digits and a place, and what is written is read as digits and a place again.
They need not be the same: the zeros that fill up a whole number are read as digits of it. But the
number is, and its place is not above the point.

## Main definitions

* `positionalText digits point`: digits with a point among them, before them or behind them

## Main results

* `toList_join_positionalPieces`: the pieces of a decimal are those of a positional text
* `magnitude?_positional`: what a positional text is read as
-/

namespace WeightedSat.Decimal

/-- **Positional**: digits of which `point` stand before the point, and zeros where there are too
few. -/
def positionalText (digits : List Char) (point : Int) : List Char :=
  if point ≤ 0 then '0' :: '.' :: (List.replicate (-point).toNat '0' ++ digits)
  else if point < digits.length then
    digits.take point.toNat ++ '.' :: digits.drop point.toNat
  else digits ++ List.replicate (point - digits.length).toNat '0'

/-! ## Pieces -/

theorem flatMap_zeroPieces (n : Nat) :
    (zeroPieces n).flatMap String.toList = List.replicate n '0' := by
  have hlast : (if n % longestRun = 0 then [] else [zeros (n % longestRun)]).flatMap
      String.toList = List.replicate (n % longestRun) '0' := by
    split
    · next h => rw [h]; rfl
    · simp [zeros]
  have hsum : n / longestRun * longestRun + n % longestRun = n := Nat.div_add_mod' n longestRun
  rw [zeroPieces, List.flatMap_append, hlast, List.flatMap_replicate, zeros, String.toList_ofList,
    List.flatten_replicate_replicate, List.replicate_append_replicate, hsum]

/-- **The pieces of a decimal** are those of a positional text. -/
theorem toList_join_positionalPieces (digits : List Char) (point : Int) :
    (String.join (positionalPieces digits point)).toList = positionalText digits point := by
  unfold positionalPieces positionalText
  rw [String.toList_join]
  split
  · simp [flatMap_zeroPieces]
  · split
    · simp
    · simp [flatMap_zeroPieces]

/-! ## Digits -/

section Digits

variable {cs ds : List Char}

theorem digitsValue_append_replicate (cs : List Char) (n : Nat) :
    Text.digitsValue (cs ++ List.replicate n '0') = Text.digitsValue cs * tenTo n := by
  have hvalue (cs : List Char) : Text.digitsValue cs = Nat.ofDigitChars 10 cs 0 := rfl
  rw [hvalue, hvalue, Nat.ofDigitChars_append, Nat.ofDigitChars_replicate_zero, Nat.mul_comm]
  rfl

theorem digitsValue_replicate_append (n : Nat) (cs : List Char) :
    Text.digitsValue (List.replicate n '0' ++ cs) = Text.digitsValue cs := by
  have hvalue (cs : List Char) : Text.digitsValue cs = Nat.ofDigitChars 10 cs 0 := rfl
  rw [hvalue, hvalue, Nat.ofDigitChars_append, Nat.ofDigitChars_replicate_zero, Nat.mul_zero]

theorem spanDigits_of_all (hcs : ∀ c ∈ cs, c.isDigit = true) : spanDigits cs = (cs, []) := by
  rw [spanDigits, List.takeWhile_eq_self_iff.mpr hcs, List.dropWhile_eq_nil_iff.mpr hcs]

theorem spanDigits_append_point (hcs : ∀ c ∈ cs, c.isDigit = true) (ds : List Char) :
    spanDigits (cs ++ '.' :: ds) = (cs, '.' :: ds) := by
  have hpoint : ¬ '.'.isDigit = true := by decide
  rw [spanDigits, List.takeWhile_append_of_pos hcs, List.dropWhile_append_of_pos hcs,
    List.takeWhile_cons_of_neg hpoint, List.dropWhile_cons_of_neg hpoint, List.append_nil]

/-- Digits without a point are a whole number. -/
theorem magnitude?_whole (hcs : ∀ c ∈ cs, c.isDigit = true) (hne : cs ≠ []) :
    magnitude? cs = some (nearestFloat (Text.digitsValue cs) 0) := by
  simp [magnitude?, spanDigits_of_all hcs, hne, exponent?]

/-- Each digit behind the point lowers the place. -/
theorem magnitude?_point (hcs : ∀ c ∈ cs, c.isDigit = true) (hds : ∀ d ∈ ds, d.isDigit = true)
    (hne : cs ≠ []) :
    magnitude? (cs ++ '.' :: ds) =
      some (nearestFloat (Text.digitsValue (cs ++ ds)) (-ds.length)) := by
  simp [magnitude?, spanDigits_append_point hcs, spanDigits_of_all hds, hne, exponent?]

theorem isDigit_of_mem_zeros {n : Nat} {c : Char} (hc : c ∈ List.replicate n '0') :
    c.isDigit = true := by
  rw [List.eq_of_mem_replicate hc]
  rfl

/-- Zeros behind the digits multiply the number. -/
theorem magnitude?_zeros (hcs : ∀ c ∈ cs, c.isDigit = true) (hne : cs ≠ []) (n : Nat) :
    magnitude? (cs ++ List.replicate n '0') =
      some (nearestFloat (Text.digitsValue cs * tenTo n) 0) := by
  have hall : ∀ c ∈ cs ++ List.replicate n '0', c.isDigit = true := by
    intro c hc
    exact (List.mem_append.mp hc).elim (hcs c) isDigit_of_mem_zeros
  rw [magnitude?_whole hall (List.append_ne_nil_of_left_ne_nil hne _),
    digitsValue_append_replicate]

/-- Zeros on both sides of the point lower the place only. -/
theorem magnitude?_fraction (hds : ∀ d ∈ ds, d.isDigit = true) (n : Nat) :
    magnitude? (['0'] ++ '.' :: (List.replicate n '0' ++ ds)) =
      some (nearestFloat (Text.digitsValue ds) (-(n + ds.length : Nat))) := by
  have hall : ∀ c ∈ List.replicate n '0' ++ ds, c.isDigit = true := by
    intro c hc
    exact (List.mem_append.mp hc).elim isDigit_of_mem_zeros (hds c)
  have hvalue : Text.digitsValue (['0'] ++ (List.replicate n '0' ++ ds)) = Text.digitsValue ds := by
    rw [← List.append_assoc]
    exact digitsValue_replicate_append (n + 1) ds
  have hzero : ∀ c ∈ ['0'], c.isDigit = true := List.forall_mem_singleton.mpr rfl
  rw [magnitude?_point hzero hall (List.cons_ne_nil _ _), hvalue, List.length_append,
    List.length_replicate]

end Digits

/-! ## Positional texts -/

section Positional

variable {digits : List Char} (hdigits : ∀ c ∈ digits, c.isDigit = true) (point : Int)
include hdigits

/-- **What a positional text is read as**: its digits at their place, with the zeros up to the
point. -/
theorem magnitude?_positional (hne : digits ≠ []) :
    magnitude? (positionalText digits point) =
      some (nearestFloat (Text.digitsValue digits * tenTo (point - digits.length).toNat)
        (min (point - digits.length) 0)) := by
  have hlength : 0 < digits.length := List.length_pos_iff.mpr hne
  have hone : Text.digitsValue digits * tenTo 0 = Text.digitsValue digits := Nat.mul_one _
  unfold positionalText
  split
  · have hplace : -(((-point).toNat + digits.length : Nat) : Int) =
        min (point - digits.length) 0 := by
      omega
    have hpower : (point - digits.length).toNat = 0 := by omega
    have hread := magnitude?_fraction hdigits (-point).toNat
    rw [hplace] at hread
    rw [hpower, hone]
    exact hread
  · split
    · have hwhole : digits.take point.toNat ≠ [] := by
        rw [ne_eq, List.take_eq_nil_iff]
        exact not_or.mpr ⟨by omega, hne⟩
      have hplace : -((digits.drop point.toNat).length : Int) = min (point - digits.length) 0 := by
        rw [List.length_drop]
        omega
      have hpower : (point - digits.length).toNat = 0 := by omega
      rw [magnitude?_point (fun c hc => hdigits c (List.mem_of_mem_take hc))
        (fun c hc => hdigits c (List.mem_of_mem_drop hc)) hwhole, List.take_append_drop, hplace,
        hpower, hone]
    · have hplace : min (point - digits.length) 0 = 0 := by omega
      rw [magnitude?_zeros hdigits hne, hplace]

/-- The first character is a digit. -/
theorem exists_positional_eq_cons (hne : digits ≠ []) :
    ∃ c cs, positionalText digits point = c :: cs ∧ c.isDigit = true := by
  unfold positionalText
  split
  · exact ⟨'0', _, rfl, rfl⟩
  · obtain ⟨d, ds, rfl⟩ := List.exists_cons_of_ne_nil hne
    have hd := hdigits d List.mem_cons_self
    split
    · obtain ⟨k, hk⟩ : ∃ k, point.toNat = k + 1 := ⟨point.toNat - 1, by omega⟩
      rw [hk]
      exact ⟨d, _, rfl, hd⟩
    · exact ⟨d, _, rfl, hd⟩

theorem isDigit_or_of_mem_positional {c : Char} (hc : c ∈ positionalText digits point) :
    c.isDigit = true ∨ c = '.' := by
  unfold positionalText at hc
  split at hc
  · simp only [List.mem_cons, List.mem_append, List.mem_replicate] at hc
    rcases hc with rfl | rfl | ⟨-, rfl⟩ | hc
    · exact .inl rfl
    · exact .inr rfl
    · exact .inl rfl
    · exact .inl (hdigits c hc)
  · split at hc
    · rcases List.mem_append.mp hc with hc | hc
      · exact .inl (hdigits c (List.mem_of_mem_take hc))
      · rcases List.mem_cons.mp hc with rfl | hc
        · exact .inr rfl
        · exact .inl (hdigits c (List.mem_of_mem_drop hc))
    · rcases List.mem_append.mp hc with hc | hc
      · exact .inl (hdigits c hc)
      · exact .inl (isDigit_of_mem_zeros hc)

end Positional

end WeightedSat.Decimal
