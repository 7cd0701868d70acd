import WeightedSat.Mwcnf.File
import WeightedSat.Proofs.FileTree
import WeightedSat.Proofs.Report.Table
import WeightedSat.Proofs.Text.Written
import WeightedSat.Report.Summary

/-!
# A file of summaries

Each search adds the line of its summary to the end of a file, and the lines of many searches make a
table: a row for each line, with a field for each piece between commas. The file holds exactly what
was added, in order.

The identifier is written as it is, and it is the stem of a path, in which any character may stand
but a slash and a zero. A line feed in it cuts the row in two, and a comma puts all figures one
field further on. So the table has a row of five fields for each summary, and can be read back,
exactly if no identifier has either of them. A single line can always be read back, as the figures
are told from its end.

## Main definitions

* `summariesText`: the lines of several summaries
* `FileTree.addSummary`: the file of the summaries is opened, and a line is added to its end
* `RunSummary.ofFields?`, `RunSummary.ofLine?`: the summary that five fields tell, and the one that
  a line tells if it is read from its end
* `RunSummary.Separable`: the identifier has neither a comma nor a line feed
* `Loadable`: the names of the instances that can be loaded

## Main results

* `FileTree.addSummaries_eq_ok`: what the file holds after several summaries were added
* `RunSummary.ofLine?_line`: one line is read back, whatever the identifier is
* `table_summariesText`: the table of separable summaries
* `addSummaries_readable_iff`: when the file can be read back
* `comma_misread`: a loadable name with which it cannot
-/

namespace WeightedSat

/-! ## The lines of summaries -/

/-- The lines of several summaries. -/
def summariesText (ss : List RunSummary) : String := String.join (ss.map RunSummary.line)

namespace RunSummary

variable (s : RunSummary)

/-- The digits of the figures, in their order. -/
def figures : List (List Char) :=
  [s.bestWeight, s.satisfied, s.unsatisfied, s.totalSteps].map (Nat.toDigits 10)

/-- The line without its end. -/
def body : List Char := s.instanceId.toList ++ s.figures.flatMap (',' :: ·)

/-- **Reading a row**: the summary that five fields tell. -/
def ofFields? : List (List Char) → Option RunSummary
  | [name, bestWeight, satisfied, unsatisfied, totalSteps] => do
    let bestWeight ← Text.digits? bestWeight
    let satisfied ← Text.digits? satisfied
    let unsatisfied ← Text.digits? unsatisfied
    let totalSteps ← Text.digits? totalSteps
    pure { instanceId := String.ofList name, bestWeight, satisfied, unsatisfied, totalSteps }
  | _ => none

/-- **Reading a line** from its end: the last four fields are the figures, and what is before them
is the identifier. -/
def ofLine? (text : String) : Option RunSummary := do
  let body ← lineOf? text
  let (name, figures) ← Text.cutLast? ',' 4 body
  ofFields? (name :: figures)

/-- **Separable**: the identifier can be told from what is around it. -/
structure Separable : Prop where
  comma_notMem : ',' ∉ s.instanceId.toList
  newline_notMem : '\n' ∉ s.instanceId.toList

theorem toList_line : s.line.toList = s.body ++ ['\n'] := by
  simp [line, body, figures, Nat.toList_repr]

variable {s} in
theorem isDigit_of_mem_figures {w : List Char} (hw : w ∈ s.figures) {c : Char} (hc : c ∈ w) :
    c.isDigit = true := by
  obtain ⟨n, -, rfl⟩ := List.mem_map.mp hw
  exact Text.isDigit_of_mem_toDigits hc

/-- **The fields of a line**: the pieces of the identifier, and the figures. -/
theorem pieces_body : Text.pieces (· == ',') s.body =
    Text.pieces (· == ',') s.instanceId.toList ++ s.figures := by
  refine Text.pieces_append_flatMap rfl (fun w hw c hc => beq_false_of_ne ?_) _
  rintro rfl
  cases isDigit_of_mem_figures hw hc

theorem newline_mem_body_iff : '\n' ∈ s.body ↔ '\n' ∈ s.instanceId.toList := by
  have hfigures : '\n' ∉ s.figures.flatMap (',' :: ·) := by
    intro hmem
    obtain ⟨w, hw, hc⟩ := List.mem_flatMap.mp hmem
    rcases List.mem_cons.mp hc with hc | hc
    · cases hc
    · cases isDigit_of_mem_figures hw hc
  simp [body, hfigures]

theorem ofFields?_figures : ofFields? (s.instanceId.toList :: s.figures) = some s := by
  simp [ofFields?, figures, Text.digits?_toDigits]

/-- **One line** is read back, whatever the identifier is. -/
theorem ofLine?_line : ofLine? s.line = some s := by
  have hcomma : ∀ w ∈ s.figures, ',' ∉ w := by
    intro w hw hmem
    cases isDigit_of_mem_figures hw hmem
  have hcut : Text.cutLast? ',' 4 s.body = some (s.instanceId.toList, s.figures) :=
    Text.cutLast?_append_flatMap hcomma _
  simp [ofLine?, lineOf?_eq_some s.toList_line, hcut, ofFields?_figures]

theorem length_of_ofFields? {fields : List (List Char)} {s : RunSummary}
    (h : ofFields? fields = some s) : fields.length = 5 := by
  unfold ofFields? at h
  split at h
  · rfl
  · cases h

end RunSummary

section Table

variable {ss : List RunSummary}

theorem toList_summariesText (ss : List RunSummary) :
    (summariesText ss).toList = (ss.map RunSummary.body).flatMap (· ++ ['\n']) := by
  simp [summariesText, String.toList_join, List.flatMap_map, RunSummary.toList_line]

/-- **The rows are as many** as the summaries exactly if no identifier has a line feed. -/
theorem length_table_eq_iff : (table (summariesText ss)).length = ss.length ↔
    ∀ s ∈ ss, '\n' ∉ s.instanceId.toList := by
  have hcut := Text.length_flatMap_pieces_eq_iff (· == '\n') (ss.map RunSummary.body)
  rw [List.length_map] at hcut
  rw [table, List.length_map, toList_summariesText, Mwcnf.textLines_flatMap, hcut,
    List.forall_mem_map]
  refine forall₂_congr fun s _ => ?_
  rw [← s.newline_mem_body_iff]
  simp only [beq_eq_false_iff_ne, ne_eq]
  exact ⟨fun h hmem => h _ hmem rfl, fun h c hc heq => h (heq ▸ hc)⟩

/-- **The table of summaries** whose identifiers have no line feed. -/
theorem table_summariesText (h : ∀ s ∈ ss, '\n' ∉ s.instanceId.toList) :
    table (summariesText ss) =
      ss.map fun s => Text.pieces (· == ',') s.instanceId.toList ++ s.figures := by
  have hlines : ∀ l ∈ ss.map RunSummary.body, '\n' ∉ l := by
    intro l hl
    obtain ⟨s, hs, rfl⟩ := List.mem_map.mp hl
    rw [s.newline_mem_body_iff]
    exact h s hs
  rw [table, toList_summariesText, Mwcnf.textLines_written hlines, List.map_map]
  exact List.map_congr_left fun s _ => s.pieces_body

theorem RunSummary.length_row_eq_iff (s : RunSummary) :
    (Text.pieces (· == ',') s.instanceId.toList ++ s.figures).length = 5 ↔
      ',' ∉ s.instanceId.toList := by
  have hfigures : s.figures.length = 4 := rfl
  rw [List.length_append, Text.length_pieces, hfigures, ← List.count_eq_countP,
    ← List.count_eq_zero]
  omega

/-- **The table of separable summaries** has a row of five fields for each. -/
theorem table_of_separable (h : ∀ s ∈ ss, s.Separable) :
    table (summariesText ss) = ss.map fun s => s.instanceId.toList :: s.figures := by
  rw [table_summariesText fun s hs => (h s hs).newline_notMem]
  refine List.map_congr_left fun s hs => ?_
  have hone : Text.pieces (· == ',') s.instanceId.toList = [s.instanceId.toList] :=
    Text.pieces_of_forall fun c hc => beq_false_of_ne fun heq => (h s hs).comma_notMem (heq ▸ hc)
  rw [hone, List.singleton_append]

/-- **A row of five fields for each summary** is there exactly if the summaries are separable. -/
theorem five_fields_iff :
    ((table (summariesText ss)).length = ss.length ∧
      ∀ row ∈ table (summariesText ss), row.length = 5) ↔ ∀ s ∈ ss, s.Separable := by
  constructor
  -- As many rows as summaries means that no row was cut; a comma would be one field more.
  · rintro ⟨hlength, hrows⟩ s hs
    have hnewline := length_table_eq_iff.mp hlength
    rw [table_summariesText hnewline, List.forall_mem_map] at hrows
    exact ⟨s.length_row_eq_iff.mp (hrows s hs), hnewline s hs⟩
  · intro h
    rw [table_of_separable h, List.length_map, List.forall_mem_map]
    exact ⟨rfl, fun s _ => rfl⟩

/-- **Reading the rows** gives the summaries back exactly if they are separable. -/
theorem read_back_iff :
    (table (summariesText ss)).map RunSummary.ofFields? = ss.map some ↔ ∀ s ∈ ss, s.Separable := by
  constructor
  · intro hread s hs
    have hlength : (table (summariesText ss)).length = ss.length := by
      simpa using congrArg List.length hread
    have hnewline := length_table_eq_iff.mp hlength
    rw [table_summariesText hnewline, List.map_map, List.map_inj_left] at hread
    have hfive := RunSummary.length_of_ofFields? (hread s hs)
    exact ⟨s.length_row_eq_iff.mp hfive, hnewline s hs⟩
  · intro h
    rw [table_of_separable h, List.map_map]
    exact List.map_congr_left fun s _ => s.ofFields?_figures

end Table

/-! ## The file -/

namespace FileTree

variable {t : FileTree} {path : String} {p : List String}

/-- **A summary is added**: the file at a path is opened with its bytes kept, and the line is
written to its end. -/
def addSummary (path : String) (t : FileTree) (s : RunSummary) : Except FileError FileTree :=
  match t.openFile true path with
  | .error e => .error e
  | .ok t => t.append path s.line.toUTF8

/-- **Open to additions**: a path leads to the place of a file, and the file there can be opened. -/
structure Takes (t : FileTree) (path : String) (p : List String) : Prop where
  place?_eq : t.place? path = some p
  exists_open : ∃ t', t.openFile true path = .ok t'

namespace Takes

/-- **One summary** is added to the bytes that are there, and the file is open to more. -/
theorem addSummary_eq_ok (h : t.Takes path p) (s : RunSummary) :
    ∃ t', t.addSummary path s = .ok t' ∧
      t.Rewritten p ((t.file? p).getD .empty ++ s.line.toUTF8) t' ∧ t'.Takes path p := by
  obtain ⟨t₁, hopen⟩ := h.exists_open
  obtain ⟨p', hplace, hopened⟩ :=
    rewritten_of_openFile (not_leadsToDevice_of_place? h.place?_eq) hopen
  obtain rfl := Option.some.inj (hplace.symm.trans h.place?_eq)
  rw [if_pos rfl] at hopened
  have htarget := target_eq_file (hopened.place?_eq.trans hplace) hopened.file?_self
  have hwritten := hopened.trans (t₁.rewritten_setFile p'
    ((t.file? p').getD .empty ++ s.line.toUTF8))
  have hplace' := hwritten.place?_eq.trans hplace
  have hrefused := refused?_of_openFile hplace hopen
  rw [← hwritten.refused?_eq] at hrefused
  have hagain := openFile_eq_ok_self (target_eq_file hplace' hwritten.file?_self)
    (endsInSlash_of_openFile hopen) hrefused
  refine ⟨_, ?_, hwritten, hplace', _, hagain⟩
  simp only [addSummary, hopen, append, htarget]

/-- **Several summaries**, added one after the other, are all there in order, after the old bytes of
the file, and no other file has changed. -/
theorem addSummaries_eq_ok (h : t.Takes path p) (ss : List RunSummary) :
    ∃ t', ss.foldlM (addSummary path) t = .ok t' ∧
      (t'.file? p).getD .empty = (t.file? p).getD .empty ++ (summariesText ss).toUTF8 ∧
      ∀ q, q ≠ p → t'.file? q = t.file? q := by
  -- Induction on the summaries: after each one the file is open to the others.
  induction ss generalizing t with
  | nil => exact ⟨t, rfl, ByteArray.append_empty.symm, fun _ _ => rfl⟩
  | cons s ss ih =>
    obtain ⟨t₁, hadd, hwritten, htakes⟩ := h.addSummary_eq_ok s
    obtain ⟨t', hrest, hfile, hother⟩ := ih htakes
    have htext : (summariesText (s :: ss)).toUTF8 = s.line.toUTF8 ++ (summariesText ss).toUTF8 := by
      rw [summariesText, List.map_cons, String.join_cons]
      exact String.toByteArray_append
    refine ⟨t', ?_, ?_, fun q hq => (hother q hq).trans (hwritten.file?_of_ne q hq)⟩
    · rw [List.foldlM_cons, hadd]
      exact hrest
    · rw [hfile, hwritten.file?_self, htext, ← ByteArray.append_assoc]
      rfl

end Takes

end FileTree

/-- **When a file of summaries can be read back.** If a path leads to the place of a file that can
be opened, then summaries are added to it one after the other without fail, and their lines are
there after the old bytes, in order. The text of these lines has a row for each summary, with five
fields in each, exactly if no identifier has a comma or a line feed; and it is under the same
condition, and no other, that reading the rows gives the summaries back. -/
theorem addSummaries_readable_iff {t t₁ : FileTree} {path : String} {p : List String}
    (hplace : t.place? path = some p) (hopen : t.openFile true path = .ok t₁)
    (ss : List RunSummary) :
    (∃ t', ss.foldlM (FileTree.addSummary path) t = .ok t' ∧
      (t'.file? p).getD .empty = (t.file? p).getD .empty ++ (summariesText ss).toUTF8 ∧
      ∀ q, q ≠ p → t'.file? q = t.file? q) ∧
    (((table (summariesText ss)).length = ss.length ∧
      ∀ row ∈ table (summariesText ss), row.length = 5) ↔
        ∀ s ∈ ss, ',' ∉ s.instanceId.toList ∧ '\n' ∉ s.instanceId.toList) ∧
    ((table (summariesText ss)).map RunSummary.ofFields? = ss.map some ↔
      ∀ s ∈ ss, ',' ∉ s.instanceId.toList ∧ '\n' ∉ s.instanceId.toList) := by
  have htakes : t.Takes path p := ⟨hplace, t₁, hopen⟩
  have hseparable : (∀ s ∈ ss, s.Separable) ↔
      ∀ s ∈ ss, ',' ∉ s.instanceId.toList ∧ '\n' ∉ s.instanceId.toList :=
    forall₂_congr fun s _ => ⟨fun h => ⟨h.1, h.2⟩, fun h => ⟨h.1, h.2⟩⟩
  exact ⟨htakes.addSummaries_eq_ok ss, five_fields_iff.trans hseparable,
    read_back_iff.trans hseparable⟩

/-- Summaries of two searches, whose names have all kinds of characters but the two. -/
def twoSummaries : List RunSummary :=
  [⟨"two", 8, 2, 0, 2⟩, ⟨"a \"b\"; c.d", 120, 91, 1, 6000⟩]

theorem summariesText_two :
    summariesText twoSummaries = "two,8,2,0,2\na \"b\"; c.d,120,91,1,6000\n" := by
  decide +kernel

theorem addSummaries_readable_iff_two :
    ∃ t', twoSummaries.foldlM (FileTree.addSummary "o.csv") {} = .ok t' ∧
      (t'.file? ["tmp", "work", "o.csv"]).getD .empty =
        "two,8,2,0,2\na \"b\"; c.d,120,91,1,6000\n".toUTF8 ∧
      (table "two,8,2,0,2\na \"b\"; c.d,120,91,1,6000\n").map RunSummary.ofFields? =
        twoSummaries.map some := by
  have hplace : ({} : FileTree).place? "o.csv" = some ["tmp", "work", "o.csv"] := by decide +kernel
  obtain ⟨t₁, hopen⟩ : ∃ t₁, ({} : FileTree).openFile true "o.csv" = .ok t₁ := ⟨_, rfl⟩
  have hseparable : ∀ s ∈ twoSummaries,
      ',' ∉ s.instanceId.toList ∧ '\n' ∉ s.instanceId.toList := by decide
  obtain ⟨⟨t', hadd, hfile, -⟩, -, hread⟩ := addSummaries_readable_iff hplace hopen twoSummaries
  have hback := hread.mpr hseparable
  rw [summariesText_two] at hfile hback
  exact ⟨t', hadd, hfile.trans ByteArray.empty_append, hback⟩

/-! ## A name with a comma -/

/-- The name of the instance in the file at a path, if one can be loaded. -/
def loadedName? (t : FileTree) (path : String) : Option String :=
  match (Mwcnf.load path (t.read path)).run #[] with
  | .ok inst _ => some inst.name
  | .error _ _ => none

/-- **Loadable**: there is an instance of this name in some file of some file tree. -/
def Loadable (name : String) : Prop :=
  ∃ (t : FileTree) (path : String), loadedName? t path = some name

/-- A directory with an instance whose name has a comma. -/
def commaTree : FileTree :=
  { files := [(["tmp", "work", "a,b.cnf"], "p mwcnf 2 2\nw 3 5 0\n1 0\n2 0\n".toUTF8)] }

theorem loadable_comma : Loadable "a,b" :=
  ⟨commaTree, "a,b.cnf", by decide +kernel⟩

/-- **A loadable name that is misread**: with a comma in the name, the line has six fields, and is
not the row of any summary. -/
theorem comma_misread :
    ¬ ∀ ss : List RunSummary, (∀ s ∈ ss, Loadable s.instanceId) →
      (table (summariesText ss)).length = ss.length ∧
      (∀ row ∈ table (summariesText ss), row.length = 5) ∧
      (table (summariesText ss)).map RunSummary.ofFields? = ss.map some := by
  intro h
  obtain ⟨-, hfive, -⟩ := h [⟨"a,b", 8, 2, 0, 2⟩] (List.forall_mem_singleton.mpr loadable_comma)
  have hrow : ["a".toList, "b".toList, ['8'], ['2'], ['0'], ['2']] ∈
      table (summariesText [⟨"a,b", 8, 2, 0, 2⟩]) := by
    decide +kernel
  exact absurd (hfive _ hrow) (by decide)

end WeightedSat
