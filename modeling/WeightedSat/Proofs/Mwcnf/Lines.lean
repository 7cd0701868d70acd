import WeightedSat.Mwcnf.Reader

/-!
# The lines of a text

A stream delivers lines of bytes, and a text has lines of characters. For a text they are the same:
no character but the line feed has the byte of the line feed in its encoding, so the bytes can be
cut before they are decoded. Reading the stream of a text is therefore a fold over the lines of
characters, in which no line fails to be a text.

## Main definitions

* `encode`: the bytes of characters
* `textLines`: the lines of a text
* `Phase.take`: the step of the reader on a line of characters

## Main results

* `Text.pieces_flatMap`: cutting before and after an encoding
* `Stream.lines_ofString`, `decodeLine_encode`: the lines of the stream of a text
* `textLines_flatMap`, `textLines_written`: the lines of a text that was written line by line
* `readDocument_ofString`: the document that a text holds
-/

namespace WeightedSat

namespace Text

variable {α β : Type} {sep : α → Bool}

theorem pieces_append_of_forall {xs ys : List α} (h : ∀ x ∈ xs, sep x = false) {p : List α}
    {ps : List (List α)} (hp : pieces sep ys = p :: ps) :
    pieces sep (xs ++ ys) = (xs ++ p) :: ps := by
  induction xs with
  | nil => exact hp
  | cons x xs ih =>
    simp [h x List.mem_cons_self, ih fun y hy => h y (List.mem_cons_of_mem _ hy), extend]

/-- **Cutting commutes with an encoding** that turns separators, and nothing else, into
separators. -/
theorem pieces_flatMap {f : α → List β} {sep' : β → Bool}
    (hsep : ∀ x, sep x = true → ∃ y, f x = [y] ∧ sep' y = true)
    (hrest : ∀ x, sep x = false → ∀ y ∈ f x, sep' y = false) (xs : List α) :
    pieces sep' (xs.flatMap f) = (pieces sep xs).map (·.flatMap f) := by
  induction xs with
  | nil => rfl
  | cons x xs ih =>
    rw [List.flatMap_cons, pieces_cons]
    cases hx : sep x with
    | true =>
      obtain ⟨y, hy, hy'⟩ := hsep x hx
      simp [hy, hy', ih]
    | false =>
      obtain ⟨p, ps, hp⟩ := List.exists_cons_of_ne_nil (@pieces_ne_nil _ sep xs)
      rw [hp, List.map_cons] at ih
      rw [pieces_append_of_forall (hrest x hx) ih, hp]
      rfl

end Text

namespace Mwcnf

/-! ## Characters and bytes -/

/-- The bytes of characters. -/
def encode (cs : List Char) : List UInt8 := cs.flatMap String.utf8EncodeChar

theorem toByteArray_encode (cs : List Char) : (encode cs).toByteArray = cs.utf8Encode := rfl

theorem bytes_ofString (cs : List Char) :
    (Stream.ofString (String.ofList cs)).bytes = encode cs := by
  have hbytes : (String.ofList cs).toUTF8 = (encode cs).toByteArray := String.toByteArray_ofList
  rw [Stream.ofString, hbytes, List.toList_data_toByteArray]

/-- **The bytes of a line** are decoded as the line. -/
theorem decodeLine_encode (cs : List Char) : decodeLine (encode cs) = .ok (String.ofList cs) := by
  have hbytes : (⟨(encode cs).toArray⟩ : ByteArray) = (String.ofList cs).toByteArray := by
    rw [String.toByteArray_ofList, ← toByteArray_encode]
    exact ByteArray.ext (List.data_toByteArray).symm
  have hvalid : (String.ofList cs).toByteArray.IsValidUTF8 := (String.ofList cs).isValidUTF8
  rw [decodeLine, hbytes, String.fromUTF8?, dif_pos hvalid]
  rfl

/-- No character but the line feed has its byte: the bytes of longer encodings are large. -/
theorem lineFeed_notMem {c : Char} (hc : c ≠ '\n') : lineFeed ∉ String.utf8EncodeChar c := by
  have hne : c.val.toNat ≠ 10 := fun h => hc (Char.ext (UInt32.toNat_inj.mp h))
  have hbyte : ∀ n, n % 256 ≠ 10 → lineFeed ≠ UInt8.ofNat n := fun n hn heq =>
    hn (UInt8.toNat_ofNat'.symm.trans (congrArg UInt8.toNat heq.symm))
  fun_cases String.utf8EncodeChar c with
  | case1 v hv => exact fun hb => hbyte _ (by omega) (List.mem_singleton.mp hb)
  | case2 =>
    simp only [List.mem_cons, List.not_mem_nil, or_false, not_or]
    exact ⟨hbyte _ (by omega), hbyte _ (by omega)⟩
  | case3 =>
    simp only [List.mem_cons, List.not_mem_nil, or_false, not_or]
    exact ⟨hbyte _ (by omega), hbyte _ (by omega), hbyte _ (by omega)⟩
  | case4 =>
    simp only [List.mem_cons, List.not_mem_nil, or_false, not_or]
    exact ⟨hbyte _ (by omega), hbyte _ (by omega), hbyte _ (by omega), hbyte _ (by omega)⟩

/-! ## Lines -/

/-- **The lines of a text**: what follows the last line feed is one too, unless it is empty. -/
def textLines (cs : List Char) : List (List Char) :=
  let ps := Text.pieces (· == '\n') cs
  if ps.getLast? == some [] then ps.dropLast else ps

theorem Stream.lines_ofString (cs : List Char) :
    (Stream.ofString (String.ofList cs)).lines = (textLines cs).map encode := by
  have hpieces : Text.pieces (· == lineFeed) (encode cs) =
      (Text.pieces (· == '\n') cs).map encode := by
    apply Text.pieces_flatMap
    · intro c hc
      obtain rfl := eq_of_beq hc
      exact ⟨lineFeed, rfl, rfl⟩
    · intro c hc b hb
      refine beq_false_of_ne ?_
      rintro rfl
      exact lineFeed_notMem (ne_of_beq_false hc) hb
  have hlast : ((Text.pieces (· == '\n') cs).getLast?.map encode == some []) =
      ((Text.pieces (· == '\n') cs).getLast? == some []) := by
    cases (Text.pieces (· == '\n') cs).getLast? with
    | none => rfl
    | some p => cases p <;> simp [encode]
  rw [Stream.lines, bytes_ofString, hpieces, List.getLast?_map, hlast, textLines,
    Stream.ofString, Bool.false_or]
  split
  · rw [List.map_dropLast]
  · rfl

/-- **Lines that are written**, each ended by a line feed, are cut at the line feeds within them. -/
theorem textLines_flatMap (ls : List (List Char)) :
    textLines (ls.flatMap (· ++ ['\n'])) = ls.flatMap (Text.pieces (· == '\n')) := by
  have hpieces : Text.pieces (· == '\n') (ls.flatMap (· ++ ['\n'])) =
      ls.flatMap (Text.pieces (· == '\n')) ++ [[]] := by
    induction ls with
    | nil => rfl
    | cons l ls ih =>
      rw [List.flatMap_cons, List.append_assoc, List.singleton_append,
        Text.pieces_append_cons l (by decide), ih, List.flatMap_cons, List.append_assoc]
  simp [textLines, hpieces]

/-- Lines without line feeds are the lines of what was written. -/
theorem textLines_written {ls : List (List Char)} (h : ∀ l ∈ ls, '\n' ∉ l) :
    textLines (ls.flatMap (· ++ ['\n'])) = ls := by
  have hpieces : ∀ l ∈ ls, Text.pieces (· == '\n') l = [l] := fun l hl =>
    Text.pieces_of_forall fun c hc => beq_false_of_ne fun heq => h l hl (heq ▸ hc)
  rw [textLines_flatMap, List.flatMap_def, List.map_congr_left hpieces, ← List.flatMap_def,
    List.flatMap_singleton']

/-- **One line of characters**. -/
def Phase.take (phase : Phase) (cs : List Char) : Reading Phase :=
  let line := Text.trim cs
  if isComment line then pure phase else phase.advance line

theorem Phase.step_encode (phase : Phase) (cs : List Char) :
    phase.step (encode cs) = phase.take cs := by
  rw [Phase.step, decodeLine_encode]
  change (if isComment (Text.trim (String.ofList cs).toList) then pure phase
    else phase.advance (Text.trim (String.ofList cs).toList)) = phase.take cs
  rw [String.toList_ofList]
  rfl

/-- **The document of a text** is read by a fold over its lines. -/
theorem readDocument_ofString (cs : List Char) :
    readDocument (Stream.ofString (String.ofList cs)) =
      (textLines cs).foldlM Phase.take .header >>= Phase.document := by
  rw [readDocument, Stream.lines_ofString, List.foldlM_map]
  simp only [Phase.step_encode]
  rfl

end Mwcnf

end WeightedSat
