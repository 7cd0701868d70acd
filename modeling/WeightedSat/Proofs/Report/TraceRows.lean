import WeightedSat.Proofs.Decimal.ReadBack
import WeightedSat.Proofs.Report.Table
import WeightedSat.Report.CsvTrace

/-!
# The rows of a trace can be read back

The text of a trace is a table: the names of the fields, and below them a line of five fields for
each row. No field has a comma or a line feed in it, so the lines and the fields are told apart by
these alone, and each field is read as what it was written for.

## Main definitions

* `linesText`, `traceText`: the text of a trace
* `TraceRow.ofFields?`: the row that five fields tell
* `Tabulates`: a text is the table of some rows

## Main results

* `table_traceText`: the table of the text of a trace
* `tabulates_traceText`: the text of a trace is the table of its rows
-/

namespace WeightedSat

/-- The rows of a trace as text, after the header. -/
def linesText (rows : List (TraceRow Float)) : String := String.join (rows.map TraceRow.line)

/-- **The text of a trace**: the header and a line for each row. -/
def traceText (rows : List (TraceRow Float)) : String := traceHeader ++ linesText rows

/-- The names of the fields. -/
def traceNames : List (List Char) :=
  ["step", "energy", "satisfied", "unsatisfied", "weight"].map String.toList

namespace TraceRow

/-- **Reading a row**: the row that five fields tell. -/
def ofFields? : List (List Char) → Option (TraceRow Float)
  | [step, energy, satisfied, unsatisfied, weight] => do
    let step ← Text.digits? step
    let energy ← Decimal.float? energy
    let satisfied ← Text.digits? satisfied
    let unsatisfied ← Text.digits? unsatisfied
    let weight ← Text.digits? weight
    pure { step, energy, satisfied, unsatisfied, weight }
  | _ => none

end TraceRow

/-- **Table of rows**: a text has a line with the names of the fields and then a line of five fields
for each row, which are read as the row; each line is ended by a line feed. -/
structure Tabulates (text : String) (rows : List (TraceRow Float)) : Prop where
  getLast?_eq : text.toList.getLast? = some '\n'
  exists_body : ∃ body : List (List (List Char)), table text = traceNames :: body ∧
    body.length = rows.length ∧ (∀ fields ∈ body, fields.length = 5) ∧
    body.map TraceRow.ofFields? = rows.map some

namespace TraceRow

variable (row : TraceRow Float)

/-- The fields after the first one. -/
def columns : List (List Char) :=
  [(Decimal.shortestText row.energy).toList, Nat.toDigits 10 row.satisfied,
    Nat.toDigits 10 row.unsatisfied, Nat.toDigits 10 row.weight]

/-- The line without its end. -/
def body : List Char := Nat.toDigits 10 row.step ++ row.columns.flatMap (',' :: ·)

theorem toList_line : row.line.toList = row.body ++ ['\n'] := by
  have henergy : (Decimal.shortestPieces row.energy).flatMap String.toList =
      (Decimal.shortestText row.energy).toList := String.toList_join.symm
  simp [line, pieces, body, columns, String.toList_join, henergy, Nat.toList_repr]

variable {row} in
theorem notMem_columns {w : List Char} (hw : w ∈ row.columns) : ',' ∉ w ∧ '\n' ∉ w := by
  have hdigits (n : Nat) : ',' ∉ Nat.toDigits 10 n ∧ '\n' ∉ Nat.toDigits 10 n :=
    ⟨fun h => absurd (Text.isDigit_of_mem_toDigits h) (by decide),
      fun h => absurd (Text.isDigit_of_mem_toDigits h) (by decide)⟩
  simp only [columns, List.mem_cons, List.not_mem_nil, or_false] at hw
  rcases hw with rfl | rfl | rfl | rfl
  · exact ⟨fun h => absurd (Decimal.mem_shortestText h) (by decide),
      fun h => absurd (Decimal.mem_shortestText h) (by decide)⟩
  · exact hdigits _
  · exact hdigits _
  · exact hdigits _

theorem pieces_body :
    Text.pieces (· == ',') row.body = Nat.toDigits 10 row.step :: row.columns := by
  have hstep : Text.pieces (· == ',') (Nat.toDigits 10 row.step) = [Nat.toDigits 10 row.step] := by
    refine Text.pieces_of_forall fun c hc => beq_false_of_ne ?_
    rintro rfl
    exact absurd (Text.isDigit_of_mem_toDigits hc) (by decide)
  have hcolumns : ∀ w ∈ row.columns, ∀ c ∈ w, (c == ',') = false := fun w hw c hc =>
    beq_false_of_ne fun heq => (notMem_columns hw).1 (heq ▸ hc)
  rw [body, Text.pieces_append_flatMap rfl hcolumns, hstep, List.singleton_append]

theorem newline_notMem_body : '\n' ∉ row.body := by
  intro hmem
  rcases List.mem_append.mp hmem with hmem | hmem
  · exact absurd (Text.isDigit_of_mem_toDigits hmem) (by decide)
  · obtain ⟨w, hw, hc⟩ := List.mem_flatMap.mp hmem
    rcases List.mem_cons.mp hc with hc | hc
    · cases hc
    · exact (notMem_columns hw).2 hc

theorem ofFields?_columns : ofFields? (Nat.toDigits 10 row.step :: row.columns) = some row := by
  simp [ofFields?, columns, Text.digits?_toDigits, Decimal.float?_shortestText]

end TraceRow

theorem toList_traceText (rows : List (TraceRow Float)) : (traceText rows).toList =
    ("step,energy,satisfied,unsatisfied,weight".toList :: rows.map TraceRow.body).flatMap
      (· ++ ['\n']) := by
  have hheader : traceHeader.toList = "step,energy,satisfied,unsatisfied,weight".toList ++ ['\n'] :=
    rfl
  simp [traceText, linesText, hheader, String.toList_join, List.flatMap_map, TraceRow.toList_line]

/-- **The table** of the text of a trace. -/
theorem table_traceText (rows : List (TraceRow Float)) : table (traceText rows) =
    traceNames :: rows.map fun row => Nat.toDigits 10 row.step :: row.columns := by
  have hlines : ∀ l ∈ "step,energy,satisfied,unsatisfied,weight".toList :: rows.map TraceRow.body,
      '\n' ∉ l := by
    intro l hl
    rcases List.mem_cons.mp hl with rfl | hl
    · decide
    · obtain ⟨row, -, rfl⟩ := List.mem_map.mp hl
      exact row.newline_notMem_body
  have hnames : Text.pieces (· == ',') "step,energy,satisfied,unsatisfied,weight".toList =
      traceNames := rfl
  rw [table, toList_traceText, Mwcnf.textLines_written hlines, List.map_cons, hnames, List.map_map]
  exact congrArg _ (List.map_congr_left fun row _ => row.pieces_body)

/-- **The text of a trace** is the table of its rows. -/
theorem tabulates_traceText (rows : List (TraceRow Float)) : Tabulates (traceText rows) rows where
  getLast?_eq := by
    rw [toList_traceText]
    exact getLast?_flatMap_newline (List.cons_ne_nil _ _)
  exists_body := by
    refine ⟨_, table_traceText rows, List.length_map _, ?_, ?_⟩
    · rw [List.forall_mem_map]
      exact fun row _ => rfl
    · rw [List.map_map]
      exact List.map_congr_left fun row _ => row.ofFields?_columns

end WeightedSat
