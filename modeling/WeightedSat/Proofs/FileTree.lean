import WeightedSat.FileTree

/-!
# Files change, places stay

A path leads to a place by way of directories and links, and no file takes part in that: giving a
file other bytes, or making one where there was none, may change with which error a path is refused,
but not where it leads. So a path that has been opened leads to the same place for as long as only
files are written, and what is appended to it arrives there.

## Main definitions

* `FileTree.withFiles`: the tree with other files
* `FileTree.place?`: the place that a path leads to, if it is one of a file
* `FileTree.LeadsToDevice`: a path leads to a device
* `FileTree.Rewritten`: a tree in which the file at a place has been given bytes

## Main results

* `FileTree.target_withFiles`, `FileTree.place?_withFiles`: where a path leads does not depend on
  files
* `FileTree.rewritten_setFile`, `FileTree.rewritten_of_openFile`: what writing and opening do
* `FileTree.target_eq_file`: what leads to the place of a file leads to the file
-/

namespace WeightedSat.FileTree

variable (t : FileTree) {t' : FileTree} {p q : List String} {path : String} {bytes : ByteArray}
  (files : List (List String × ByteArray))

/-! ## Giving a file its bytes -/

/-- The tree with other files, and the same directories, links and devices. -/
def withFiles : FileTree := { t with files }

theorem setFile_eq_withFiles (p : List String) (bytes : ByteArray) :
    t.setFile p bytes = t.withFiles (t.setFile p bytes).files := by
  unfold setFile
  split <;> rfl

/-- Giving a file its bytes leaves the files at their places. -/
theorem key_comp_replace (p q : List String) (bytes : ByteArray) :
    ((·.1 == q) ∘ fun f : List String × ByteArray => if f.1 == p then (p, bytes) else f) =
      (·.1 == q) := by
  funext f
  by_cases hf : f.1 = p <;> simp [hf]

theorem file?_setFile_self (p : List String) (bytes : ByteArray) :
    (t.setFile p bytes).file? p = some bytes := by
  unfold setFile
  split
  · next hsome =>
    obtain ⟨f, hfind⟩ : ∃ f, t.files.find? (·.1 == p) = some f := by
      simpa only [file?, Option.isSome_map, Option.isSome_iff_exists] using hsome
    have hplace : f.1 = p := by
      simpa using List.find?_some hfind
    simp only [file?, List.find?_map, key_comp_replace, hfind, Option.map_some, hplace,
      beq_self_eq_true, if_true]
  · next hnone =>
    have hfind : t.files.find? (·.1 == p) = none := by
      simpa only [file?, Option.isSome_map, Option.not_isSome_iff_eq_none] using hnone
    simp only [file?, List.find?_append, hfind, Option.none_or, List.find?_cons_of_pos,
      beq_self_eq_true, Option.map_some]

theorem file?_setFile_of_ne (bytes : ByteArray) (h : q ≠ p) :
    (t.setFile p bytes).file? q = t.file? q := by
  have hpq : (p == q) = false := beq_false_of_ne h.symm
  unfold setFile
  split
  · simp only [file?, List.find?_map, key_comp_replace, Option.map_map]
    cases hfind : t.files.find? (·.1 == q) with
    | none => rfl
    | some f =>
      have hf : f.1 = q := by
        simpa using List.find?_some hfind
      have hfp : f.1 ≠ p := by
        rw [hf]
        exact h
      simp [hfp]
  · simp [file?, List.find?_append, hpq]

/-- **Rewritten**: the tree in which the file at a place has been given bytes, all else being as it
was. -/
structure Rewritten (p : List String) (bytes : ByteArray) (t' : FileTree) : Prop where
  eq_withFiles : t' = t.withFiles t'.files
  file?_self : t'.file? p = some bytes
  file?_of_ne : ∀ q, q ≠ p → t'.file? q = t.file? q

theorem rewritten_setFile (p : List String) (bytes : ByteArray) :
    t.Rewritten p bytes (t.setFile p bytes) where
  eq_withFiles := t.setFile_eq_withFiles p bytes
  file?_self := t.file?_setFile_self p bytes
  file?_of_ne _ h := t.file?_setFile_of_ne bytes h

theorem rewritten_self (h : t.file? p = some bytes) : t.Rewritten p bytes t where
  eq_withFiles := rfl
  file?_self := h
  file?_of_ne _ _ := rfl

/-- What has been written twice at one place has been written once. -/
theorem Rewritten.trans {t t₁ t₂ : FileTree} {p : List String} {bytes bytes' : ByteArray}
    (h : t.Rewritten p bytes t₁) (h' : t₁.Rewritten p bytes' t₂) : t.Rewritten p bytes' t₂ where
  eq_withFiles := by
    rw [h'.eq_withFiles, h.eq_withFiles]
    rfl
  file?_self := h'.file?_self
  file?_of_ne q hq := (h'.file?_of_ne q hq).trans (h.file?_of_ne q hq)

/-! ## Where paths lead -/

/-- The target as far as it does not depend on files: a file and a place for one are the same. -/
def Target.shape : Target → Target
  | .file p _ => .vacant p
  | u => u

/-- The place of a target, if a file is or could be there. -/
def Target.place? : Target → Option (List String)
  | .file p _ | .vacant p => some p
  | .directory _ | .device _ => none

/-- The place that a path leads to, if a file is or could be there. -/
def place? (path : String) : Option (List String) := (t.target path).toOption.bind Target.place?

theorem lookUp_withFiles (p : List String) (name : String) :
    ((t.withFiles files).lookUp p name).map Target.shape = (t.lookUp p name).map Target.shape := by
  have hdirectory : (t.withFiles files).hasDirectory = t.hasDirectory := rfl
  have hdevice : (t.withFiles files).device? = t.device? := rfl
  have hfollow : (t.withFiles files).follow = t.follow := rfl
  simp only [lookUp, hdirectory, hdevice, hfollow]
  split
  · rfl
  · split
    · rfl
    · cases t.device? (t.follow (p ++ [name])) with
      | some d => rfl
      | none =>
        cases (t.withFiles files).file? (t.follow (p ++ [name])) <;>
          cases t.file? (t.follow (p ++ [name])) <;> rfl

theorem walk_withFiles (p : List String) (names : List String) :
    ((t.withFiles files).walk p names).toOption = (t.walk p names).toOption := by
  induction names generalizing p with
  | nil => rfl
  | cons name names ih =>
    simp only [walk]
    split
    · exact ih p
    · split
      · exact ih p.dropLast
      · -- Only a directory leads on; anything else is refused, with whatever error.
        have hlook := t.lookUp_withFiles files p name
        cases h : (t.withFiles files).lookUp p name with
        | error e =>
          cases h' : t.lookUp p name with
          | error e' => rfl
          | ok u =>
            rw [h, h'] at hlook
            cases hlook
        | ok u =>
          cases h' : t.lookUp p name with
          | error e' =>
            rw [h, h'] at hlook
            cases hlook
          | ok u' =>
            rw [h, h'] at hlook
            have hshape : u.shape = u'.shape := Except.ok.inj hlook
            cases u <;> cases u' <;> simp only [Target.shape, reduceCtorEq] at hshape
            · obtain rfl := Target.directory.inj hshape
              exact ih _
            all_goals rfl

theorem directoryOf_withFiles (path : String) :
    ((t.withFiles files).directoryOf path).toOption = (t.directoryOf path).toOption := by
  unfold directoryOf
  cases Path.refusal? path with
  | some e => rfl
  | none => exact t.walk_withFiles files _ _

/-- **Where a path leads** does not depend on files. -/
theorem target_withFiles (path : String) :
    ((t.withFiles files).target path).toOption.map Target.shape =
      (t.target path).toOption.map Target.shape := by
  have hdirectory := t.directoryOf_withFiles files path
  unfold target
  cases h : (t.withFiles files).directoryOf path with
  | error e =>
    cases h' : t.directoryOf path with
    | error e' => rfl
    | ok p' =>
      rw [h, h'] at hdirectory
      cases hdirectory
  | ok p =>
    cases h' : t.directoryOf path with
    | error e' =>
      rw [h, h'] at hdirectory
      cases hdirectory
    | ok p' =>
      rw [h, h'] at hdirectory
      obtain rfl := Option.some.inj hdirectory
      dsimp only
      split
      · rfl
      · split
        · rfl
        · split
          · rfl
          · next name _ _ _ =>
            have hlook := congrArg Except.toOption (t.lookUp_withFiles files p name)
            revert hlook
            cases (t.withFiles files).lookUp p name <;> cases t.lookUp p name <;> exact id

/-- The path leads to a device. -/
def LeadsToDevice (path : String) : Prop := ∃ d, t.target path = .ok (.device d)

theorem leadsToDevice_iff_shape :
    t.LeadsToDevice path ↔ ∃ d, (t.target path).toOption.map Target.shape = some (.device d) := by
  unfold LeadsToDevice
  cases t.target path with
  | error e => simp [Except.toOption]
  | ok u => cases u <;> simp [Except.toOption, Target.shape]

theorem leadsToDevice_withFiles :
    (t.withFiles files).LeadsToDevice path ↔ t.LeadsToDevice path := by
  rw [leadsToDevice_iff_shape, leadsToDevice_iff_shape, target_withFiles]

theorem not_leadsToDevice_of_place? {t : FileTree} (h : t.place? path = some p) :
    ¬ t.LeadsToDevice path := by
  rintro ⟨d, htarget⟩
  rw [place?, htarget] at h
  cases h

theorem refusal?_eq_none {t : FileTree} (h : ¬ t.LeadsToDevice path) : t.refusal? path = none := by
  unfold refusal?
  split
  · next d htarget => exact absurd ⟨d, htarget⟩ h
  · rfl

theorem Target.place?_shape (u : Target) : u.shape.place? = u.place? := by
  cases u <;> rfl

theorem place?_eq_bind_shape (path : String) :
    t.place? path = ((t.target path).toOption.map Target.shape).bind Target.place? := by
  unfold place?
  cases t.target path with
  | error e => rfl
  | ok u => exact u.place?_shape.symm

@[simp] theorem place?_withFiles (path : String) :
    (t.withFiles files).place? path = t.place? path := by
  rw [place?_eq_bind_shape, place?_eq_bind_shape, target_withFiles]

variable {t}

theorem Rewritten.leadsToDevice_iff (h : t.Rewritten p bytes t') (path : String) :
    t'.LeadsToDevice path ↔ t.LeadsToDevice path := by
  rw [h.eq_withFiles, leadsToDevice_withFiles]

theorem Rewritten.place?_eq (h : t.Rewritten p bytes t') : t'.place? path = t.place? path := by
  rw [h.eq_withFiles, place?_withFiles]

theorem Rewritten.refused?_eq (h : t.Rewritten p bytes t') : t'.refused? = t.refused? := by
  rw [h.eq_withFiles]
  rfl

/-! ## Opening and appending -/

theorem lookUp_eq_file {name : String} (h : t.lookUp p name = .ok (.file q bytes)) :
    t.file? q = some bytes := by
  unfold lookUp at h
  dsimp only at h
  split at h
  · cases h
  · split at h
    · cases h
    · split at h
      · cases h
      · next hfile =>
        obtain ⟨rfl, rfl⟩ := Target.file.inj (Except.ok.inj h)
        exact hfile
      · cases h

theorem lookUp_eq_vacant {name : String} (h : t.lookUp p name = .ok (.vacant q)) :
    t.file? q = none := by
  unfold lookUp at h
  dsimp only at h
  split at h
  · cases h
  · split at h
    · cases h
    · split at h
      · cases h
      · cases h
      · next hfile =>
        obtain rfl := Target.vacant.inj (Except.ok.inj h)
        exact hfile

/-- What a path leads to, unless it is a directory, is found under the last name of the path. -/
theorem exists_lookUp {u : Target} (h : t.target path = .ok u) (hu : ∀ q, u ≠ .directory q) :
    ∃ p name, t.lookUp p name = .ok u := by
  unfold target at h
  split at h
  · cases h
  · split at h
    · exact absurd (Except.ok.inj h).symm (hu _)
    · split at h
      · exact absurd (Except.ok.inj h).symm (hu _)
      · split at h
        · exact absurd (Except.ok.inj h).symm (hu _)
        · exact ⟨_, _, h⟩

theorem file?_of_target_file (h : t.target path = .ok (.file p bytes)) :
    t.place? path = some p ∧ t.file? p = some bytes := by
  obtain ⟨q, name, hlook⟩ := exists_lookUp h (by simp)
  refine ⟨?_, lookUp_eq_file hlook⟩
  rw [place?, h]
  rfl

theorem file?_of_target_vacant (h : t.target path = .ok (.vacant p)) :
    t.place? path = some p ∧ t.file? p = none := by
  obtain ⟨q, name, hlook⟩ := exists_lookUp h (by simp)
  refine ⟨?_, lookUp_eq_vacant hlook⟩
  rw [place?, h]
  rfl

/-- **Opening** a file that is no device leaves it with its old bytes or with none. -/
theorem rewritten_of_openFile {keep : Bool} (hdevice : ¬ t.LeadsToDevice path)
    (h : t.openFile keep path = .ok t') :
    ∃ p, t.place? path = some p ∧
      t.Rewritten p (if keep then (t.file? p).getD .empty else .empty) t' := by
  unfold openFile at h
  split at h
  · cases h
  · split at h
    · cases h
    · split at h
      · cases h
      · cases h
      · next p bytes htarget =>
        obtain ⟨hplace, hfile⟩ := file?_of_target_file htarget
        split at h
        · cases h
        · obtain rfl := Except.ok.inj h
          refine ⟨p, hplace, ?_⟩
          cases keep with
          | true =>
            rw [if_pos rfl, if_pos rfl]
            exact t.rewritten_self (by rw [hfile]; rfl)
          | false => exact t.rewritten_setFile p .empty
      · next p htarget =>
        obtain ⟨hplace, hfile⟩ := file?_of_target_vacant htarget
        split at h
        · cases h
        · obtain rfl := Except.ok.inj h
          refine ⟨p, hplace, ?_⟩
          rw [hfile, Option.getD_none, ite_self]
          exact t.rewritten_setFile p .empty
      · next d htarget => exact absurd ⟨d, htarget⟩ hdevice

/-- A file that has been opened does not refuse to be written. -/
theorem refused?_of_openFile {keep : Bool} (hplace : t.place? path = some p)
    (h : t.openFile keep path = .ok t') : t.refused? .writing p = none := by
  unfold openFile at h
  split at h
  · cases h
  · split at h
    · cases h
    · split at h
      · cases h
      · cases h
      · next q bytes htarget =>
        obtain rfl := Option.some.inj ((file?_of_target_file htarget).1.symm.trans hplace)
        split at h
        · cases h
        · next hrefused => exact hrefused
      · next q htarget =>
        obtain rfl := Option.some.inj ((file?_of_target_vacant htarget).1.symm.trans hplace)
        split at h
        · cases h
        · next hrefused => exact (Option.or_eq_none_iff.mp hrefused).2
      · next d htarget => exact absurd ⟨d, htarget⟩ (not_leadsToDevice_of_place? hplace)

/-- What leads to the place of a file leads to the file. -/
theorem target_eq_file (hplace : t.place? path = some p) (hfile : t.file? p = some bytes) :
    t.target path = .ok (.file p bytes) := by
  unfold place? at hplace
  cases htarget : t.target path with
  | error e =>
    rw [htarget] at hplace
    cases hplace
  | ok u =>
    rw [htarget] at hplace
    cases u with
    | directory q => cases hplace
    | device d => cases hplace
    | file q old =>
      obtain rfl := Option.some.inj hplace
      have hold := (file?_of_target_file htarget).2
      rw [Option.some.inj (hold.symm.trans hfile)]
    | vacant q =>
      obtain rfl := Option.some.inj hplace
      have hnone := (file?_of_target_vacant htarget).2
      rw [hnone] at hfile
      cases hfile

theorem endsInSlash_of_openFile {keep : Bool} (h : t.openFile keep path = .ok t') :
    Path.endsInSlash path = false := by
  unfold openFile at h
  split at h
  · cases h
  · split at h
    · cases h
    · next hslash => simpa using hslash

/-- **Opening a file once more** with its bytes kept changes nothing. -/
theorem openFile_eq_ok_self (htarget : t.target path = .ok (.file p bytes))
    (hslash : Path.endsInSlash path = false) (hrefused : t.refused? .writing p = none) :
    t.openFile true path = .ok t := by
  obtain ⟨q, hdirectory⟩ : ∃ q, t.directoryOf path = .ok q := by
    unfold target at htarget
    split at htarget
    · cases htarget
    · next q hq => exact ⟨q, hq⟩
  simp [openFile, hdirectory, hslash, htarget, hrefused]

end WeightedSat.FileTree
