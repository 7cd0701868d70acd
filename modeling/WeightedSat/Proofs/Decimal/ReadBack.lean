import WeightedSat.Proofs.Decimal.Nearest
import WeightedSat.Proofs.Decimal.Positional
import WeightedSat.Proofs.Decimal.Shortest

/-!
# Shortest decimals are read back

The text of a double is read as the double itself. The shortest decimal is close to the double, so
its digits at their place are read as the double; and the positional text has the same digits up to
zeros, which do not change what the number is. A sign goes through all of this, and what is no
number has a name.

## Main definitions

* `magnitudeText`, `Binary64.text`: the characters of a double

## Main results

* `magnitude?_magnitudeText`: a positive double
* `float?_shortestText`: every double
-/

namespace WeightedSat.Decimal

/-- The text of a magnitude `m · 2 ^ q`. -/
def magnitudeText (m : Nat) (q : Int) : List Char :=
  if m = 0 then ['0']
  else
    let (place, digits) := shortest m q
    positionalText (Nat.toDigits 10 digits) ((Nat.toDigits 10 digits).length + place)

theorem toList_join_magnitudePieces (m : Nat) (q : Int) :
    (String.join (magnitudePieces m q)).toList = magnitudeText m q := by
  unfold magnitudePieces magnitudeText
  split
  · rfl
  · rw [toList_join_positionalPieces]
    simp [Nat.toList_repr]

/-- The characters of a sign. -/
def signText (negative : Bool) : List Char := if negative then ['-'] else []

/-- **The text of a double**, by what it stands for. -/
def Binary64.text : Binary64 → List Char
  | .undefined => ['N', 'a', 'N']
  | .infinite negative => signText negative ++ ['i', 'n', 'f']
  | .finite negative m q => signText negative ++ magnitudeText m q

theorem toList_shortestText (x : Float) :
    (shortestText x).toList = (Binary64.ofFloat x).text := by
  unfold shortestText shortestPieces
  cases Binary64.ofFloat x with
  | undefined => rfl
  | infinite negative => cases negative <;> rfl
  | finite negative m q =>
    rw [Binary64.text, ← toList_join_magnitudePieces]
    cases negative with
    | false => rfl
    | true => rw [Binary64.pieces, if_pos rfl, String.join_cons, String.toList_append]; rfl

/-- The characters of decimals that are no digits. -/
def marks : List Char := ['.', '-', 'N', 'a', 'i', 'n', 'f']

theorem mem_shortestText {x : Float} {c : Char} (hc : c ∈ (shortestText x).toList) :
    c.isDigit = true ∨ c ∈ marks := by
  rw [toList_shortestText] at hc
  have hsign {negative : Bool} (hc : c ∈ signText negative) : c ∈ marks := by
    cases negative with
    | false => cases hc
    | true => exact List.mem_singleton.mp hc ▸ by decide
  cases hx : Binary64.ofFloat x with
  | undefined =>
    rw [hx] at hc
    exact .inr ((by decide : ['N', 'a', 'N'] ⊆ marks) hc)
  | infinite negative =>
    rw [hx] at hc
    rcases List.mem_append.mp hc with hc | hc
    · exact .inr (hsign hc)
    · exact .inr ((by decide : ['i', 'n', 'f'] ⊆ marks) hc)
  | finite negative m q =>
    rw [hx] at hc
    rcases List.mem_append.mp hc with hc | hc
    · exact .inr (hsign hc)
    · unfold magnitudeText at hc
      split at hc
      · exact .inl (List.mem_singleton.mp hc ▸ rfl)
      · rcases isDigit_or_of_mem_positional (fun _ => Text.isDigit_of_mem_toDigits) _ hc with
          hc | rfl
        · exact .inl hc
        · exact .inr (by decide)

/-! ## Reading -/

section Reading

open Float.Model (UnpackedFloat Format)
open Float.Model.UnpackedFloat

/-- **A positive double** is read back. -/
theorem magnitude?_magnitudeText {x : Float} {m j : Nat} (hform : NormalForm m j) (hj : j ≤ 2045)
    (hx : x.toModel.unpack = .finite .positive m (j - 1074) hform.pos) :
    magnitude? (magnitudeText m (j - 1074)) = some x := by
  obtain ⟨k, d, hshortest, hk, hd, hcontains⟩ := exists_shortest_eq hform hj
  have hdigits : Text.digitsValue (Nat.toDigits 10 d) = d := Nat.ofDigitChars_ten_toDigits
  have hplace : ((Nat.toDigits 10 d).length + k : Int) - (Nat.toDigits 10 d).length = k := by omega
  have hpos : 0 < d * tenTo k.toNat := Nat.mul_pos hd (Nat.pow_pos (by decide))
  have hclose := close_of_contains hcontains
  have hbelow : (-k).toNat = (-(min k 0)).toNat := by omega
  rw [hbelow] at hclose
  rw [magnitudeText, if_neg hform.pos.ne', hshortest]
  dsimp only
  rw [magnitude?_positional (fun _ => Text.isDigit_of_mem_toDigits) _ Nat.toDigits_ne_nil, hdigits,
    hplace, nearestFloat_eq hform hpos hx (by omega) (by omega) hclose]

/-- What begins with a digit is no name. -/
theorem named?_cons {c : Char} (hc : c.isDigit = true) (cs : List Char) :
    named? (c :: cs) = none := by
  have hlower : c.toLower.isDigit = true := by
    obtain ⟨-, hhigh⟩ : 48 ≤ c.toNat ∧ c.toNat ≤ 57 := by
      simpa [Char.isDigit, UInt32.le_iff_toNat_le] using hc
    have hself : c.toLower = c := by
      refine dif_neg fun h => ?_
      have hupper : 65 ≤ c.toNat := UInt32.le_iff_toNat_le.mp h.1
      omega
    rwa [hself]
  have hname (d : Char) (ds : List Char) (hd : d.isDigit = false) :
      String.ofList ((c :: cs).map Char.toLower) ≠ String.ofList (d :: ds) := by
    intro heq
    rw [String.ofList_inj, List.map_cons] at heq
    rw [(List.cons.inj heq).1, hd] at hlower
    cases hlower
  have hinf := hname 'i' ['n', 'f'] rfl
  have hinfinity := hname 'i' ['n', 'f', 'i', 'n', 'i', 't', 'y'] rfl
  unfold named?
  dsimp only
  rw [if_neg (not_or.mpr ⟨hinf, hinfinity⟩), if_neg (hname 'n' ['a', 'n'] rfl)]

theorem exists_magnitudeText_eq_cons (m : Nat) (q : Int) :
    ∃ c cs, magnitudeText m q = c :: cs ∧ c.isDigit = true := by
  unfold magnitudeText
  split
  · exact ⟨'0', [], rfl, rfl⟩
  · exact exists_positional_eq_cons (fun _ => Text.isDigit_of_mem_toDigits) _ Nat.toDigits_ne_nil

/-- **A sign** is read as such. -/
theorem float?_signText (negative : Bool) (m : Nat) (q : Int) :
    float? (signText negative ++ magnitudeText m q) =
      (magnitude? (magnitudeText m q)).map fun x => if negative then -x else x := by
  obtain ⟨c, cs, htext, hc⟩ := exists_magnitudeText_eq_cons m q
  rw [htext]
  cases negative with
  | false =>
    rw [float?.eq_def]
    split
    · next ds hds =>
      obtain rfl := (List.cons.inj hds).1
      cases hc
    · next ds hds =>
      obtain rfl := (List.cons.inj hds).1
      cases hc
    · show (named? (c :: cs)).or (magnitude? (c :: cs)) = _
      rw [named?_cons hc, Option.none_or]
      exact Option.map_id'.symm
  | true =>
    have hminus : float? (signText true ++ c :: cs) =
        ((named? (c :: cs)).or (magnitude? (c :: cs))).map Neg.neg := rfl
    rw [hminus, named?_cons hc, Option.none_or]
    rfl

theorem neg_eq_of_unpack {x y : Float} (h : x.toModel.unpack.neg = y.toModel.unpack) : -x = y := by
  rw [← ofModel_pack_unpack y, ← h]
  rfl

/-- The double with a given magnitude. -/
theorem exists_unpack_eq {m j : Nat} (hform : NormalForm m j) (hj : j ≤ 2045) :
    ∃ x : Float, x.toModel.unpack = .finite .positive m (j - 1074) hform.pos :=
  ⟨.ofModel (.pack (.finite .positive m (j - 1074) hform.pos)), hform.unpack_pack hj .positive⟩

/-- Reading goes by what a double is unpacked to. -/
theorem float?_text_of_unpack {x y : Float} {a : UnpackedFloat} (hx : x.toModel.unpack = a)
    (hy : y.toModel.unpack = a) (h : float? (Binary64.ofUnpacked a).text = some y) :
    float? (Binary64.ofUnpacked a).text = some x := by
  rw [h, eq_of_unpack_eq (hy.trans hx.symm)]

/-- **Shortest decimals are read back**, whatever the double is. -/
theorem float?_shortestText (x : Float) : float? (shortestText x).toList = some x := by
  rw [toList_shortestText, ofFloat_eq]
  cases hx : x.toModel.unpack with
  | notANumber => exact float?_text_of_unpack (y := 0.0 / 0.0) hx rfl (by decide +kernel)
  | infinity s =>
    cases s with
    | positive => exact float?_text_of_unpack (y := 1.0 / 0.0) hx rfl (by decide +kernel)
    | negative => exact float?_text_of_unpack (y := -(1.0 / 0.0)) hx rfl (by decide +kernel)
  | zero s =>
    cases s with
    | positive => exact float?_text_of_unpack (y := 0.0) hx rfl (by decide +kernel)
    | negative => exact float?_text_of_unpack (y := -0.0) hx rfl (by decide +kernel)
  | finite s m e hm =>
    obtain ⟨j, rfl, hj, hform⟩ := exists_normalForm hx
    obtain ⟨y, hy⟩ := exists_unpack_eq hform hj
    rw [Binary64.ofUnpacked, Binary64.text, float?_signText, magnitude?_magnitudeText hform hj hy]
    cases s with
    | positive => exact congrArg some (eq_of_unpack_eq (hy.trans hx.symm))
    | negative => exact congrArg some (neg_eq_of_unpack (hx.symm ▸ hy ▸ rfl))

end Reading

end WeightedSat.Decimal
