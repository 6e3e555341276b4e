import LootFilter.Backup
import LootFilter.Proofs.Disk.Tree

/-
  The names and places of copies.

  A copy stands in the folder of its file, under the file's
  name with a suffix.  So a place has its copy below the same
  root of the data directory, and the name of a copy gives
  the name of its file back.

  Main declarations:
    * `Backup.copyPlace`
    * `Backup.endsInBackup_iff`
    * `Backup.IsBelow` and `Backup.UnderRoot`
    * `Backup.isBackupName_iff`
    * `Backup.restoredName_append`
-/

namespace LootFilter

namespace Backup

------------------------------------------------------------
-- Names of Copies
------------------------------------------------------------

/- The name of a copy is a name with the suffix. -/
theorem isBackupName_iff
    {name : String} :
    isBackupName name = true ↔
      ∃ stem, name = stem ++ DataFile.backupSuffix := by
  unfold isBackupName
  rw [List.isSuffixOf_iff_suffix]
  constructor
  · rintro ⟨stem, hStem⟩
    refine ⟨String.ofList stem, ?_⟩
    apply String.toList_injective
    simpa using hStem.symm
  · rintro ⟨stem, rfl⟩
    exact ⟨stem.toList, by simp⟩

/- A name with the suffix is the name of a copy. -/
@[simp] theorem isBackupName_append (stem : String) :
    isBackupName (stem ++ DataFile.backupSuffix) = true :=
  isBackupName_iff.mpr ⟨stem, rfl⟩

/- The suffix can be taken off again. -/
theorem append_backupSuffix_injective
    {a b : String}
    (hEq :
      a ++ DataFile.backupSuffix =
        b ++ DataFile.backupSuffix) :
    a = b := by
  apply String.toList_injective
  have hLists := congrArg String.toList hEq
  simp only [String.toList_append] at hLists
  exact List.append_cancel_right hLists

/- A name with the suffix names something. -/
theorem namesEntry_append_backupSuffix (name : String) :
    Disk.NamesEntry (name ++ DataFile.backupSuffix) := by
  have hLength :
      12 < (name ++ DataFile.backupSuffix).toList.length := by
    simp [DataFile.backupSuffix]
  refine ⟨?_, ?_, ?_⟩ <;>
  · intro hEq
    rw [hEq] at hLength
    simp at hLength

/- The name of a copy gives the name of its file back. -/
theorem restoredName_append
    {stem : String}
    (hStem : stem ≠ "") :
    restoredName (stem ++ DataFile.backupSuffix) = stem := by
  have hNe :
      stem ++ DataFile.backupSuffix ≠
        DataFile.backupSuffix := by
    intro hEq
    apply hStem
    apply append_backupSuffix_injective
    simpa using hEq
  unfold restoredName
  rw [if_neg hNe]
  simp

------------------------------------------------------------
-- Places of Copies
------------------------------------------------------------

/- Where the copy of what stands at a place is kept. -/
def copyPlace (l : Location) : Location :=
  match l.getLast? with
  | none => l
  | some name =>
      l.dropLast ++ [name ++ DataFile.backupSuffix]

/- The copy of a named place has the name with the suffix. -/
@[simp] theorem copyPlace_concat
    (parent : Location)
    (name : String) :
    copyPlace (parent ++ [name]) =
      parent ++ [name ++ DataFile.backupSuffix] := by
  simp [copyPlace]

/- Only the root has its copy at the root. -/
@[simp] theorem copyPlace_eq_nil_iff
    {l : Location} :
    copyPlace l = [] ↔ l = [] := by
  rcases List.eq_nil_or_concat l with
    rfl | ⟨parent, name, rfl⟩
  · simp [copyPlace]
  · simp

/- A copy is below the same places as its file. -/
theorem copyPlace_append
    (above : Location)
    {l : Location}
    (hRoot : l ≠ []) :
    copyPlace (above ++ l) = above ++ copyPlace l := by
  rcases List.eq_nil_or_concat l with
    rfl | ⟨parent, name, rfl⟩
  · exact absurd rfl hRoot
  · rw [List.concat_eq_append, ← List.append_assoc,
      copyPlace_concat, copyPlace_concat, List.append_assoc]

/- Different places have different places for their copies. -/
theorem copyPlace_injective
    {a b : Location}
    (hEq : copyPlace a = copyPlace b) :
    a = b := by
  rcases List.eq_nil_or_concat a with rfl | ⟨as, x, rfl⟩
  · exact (copyPlace_eq_nil_iff.mp hEq.symm).symm
  · rcases List.eq_nil_or_concat b with rfl | ⟨bs, y, rfl⟩
    · exact copyPlace_eq_nil_iff.mp hEq
    · simp only [List.concat_eq_append, copyPlace_concat]
        at hEq ⊢
      have hParts := List.append_inj' hEq rfl
      have hNames : x = y :=
        append_backupSuffix_injective
          (List.singleton_inj.mp hParts.2)
      rw [hParts.1, hNames]

/- Whether the last of some names is that of a copy. -/
def endsInBackup (names : List String) : Bool :=
  isBackupName (names.getLast?.getD "")

/- No names do not end in that of a copy. -/
@[simp] theorem endsInBackup_nil :
    endsInBackup [] = false := by
  simp [endsInBackup, isBackupName, DataFile.backupSuffix]

/- Names in front do not matter for the last one. -/
theorem endsInBackup_append
    (above : List String)
    {names : List String}
    (hNames : names ≠ []) :
    endsInBackup (above ++ names) = endsInBackup names := by
  unfold endsInBackup
  rw [List.getLast?_append_of_ne_nil _ hNames]

/- The places that end in the name of a copy are for copies. -/
theorem endsInBackup_iff
    {l : Location} :
    endsInBackup l = true ↔ ∃ f, f ≠ [] ∧ l = copyPlace f := by
  rcases List.eq_nil_or_concat l with
    rfl | ⟨parent, name, rfl⟩
  · simp only [endsInBackup_nil, Bool.false_eq_true, false_iff]
    rintro ⟨f, hRoot, hEq⟩
    rcases List.eq_nil_or_concat f with
      rfl | ⟨above, stem, rfl⟩
    · exact hRoot rfl
    · simp at hEq
  · rw [List.concat_eq_append]
    simp only [endsInBackup, List.getLast?_concat,
      Option.getD_some, isBackupName_iff]
    constructor
    · rintro ⟨stem, rfl⟩
      exact ⟨parent ++ [stem], by simp, by simp⟩
    · rintro ⟨f, hRoot, hEq⟩
      rcases List.eq_nil_or_concat f with
        rfl | ⟨above, stem, rfl⟩
      · exact absurd rfl hRoot
      · rw [List.concat_eq_append, copyPlace_concat] at hEq
        exact
          ⟨stem, List.singleton_inj.mp
            (List.append_inj' hEq rfl).2⟩

------------------------------------------------------------
-- Below the Roots
------------------------------------------------------------

/- Whether a place is below another. -/
def IsBelow (base l : Location) : Prop :=
  ∃ names, names ≠ [] ∧ l = base ++ names

/- A named place is below another by the folder it is in. -/
theorem isBelow_concat_iff
    {base parent : Location}
    {name : String} :
    IsBelow base (parent ++ [name]) ↔ base <+: parent := by
  constructor
  · rintro ⟨names, hNames, hEq⟩
    rcases List.eq_nil_or_concat names with
      rfl | ⟨above, last, rfl⟩
    · exact absurd rfl hNames
    · rw [List.concat_eq_append, ← List.append_assoc] at hEq
      exact ⟨above, (List.append_inj' hEq rfl).1.symm⟩
  · rintro ⟨above, rfl⟩
    exact ⟨above ++ [name], by simp, by simp⟩

/- A copy is below a place exactly if its file is. -/
theorem isBelow_copyPlace_iff
    {base l : Location} :
    IsBelow base (copyPlace l) ↔ IsBelow base l := by
  rcases List.eq_nil_or_concat l with
    rfl | ⟨parent, name, rfl⟩
  · exact Iff.rfl
  · rw [List.concat_eq_append, copyPlace_concat,
      isBelow_concat_iff, isBelow_concat_iff]

/-
  Whether a place is below a root of the data directory.  The
  roots themselves are not.
-/
def UnderRoot (dir l : Location) : Prop :=
  ∃ root ∈ roots, ∃ names,
    names ≠ [] ∧ l = dir ++ [root] ++ names

/- A place below a root is not the root of the tree. -/
theorem UnderRoot.ne_nil
    {dir l : Location}
    (h : UnderRoot dir l) :
    l ≠ [] := by
  rcases h with ⟨root, _, names, _, rfl⟩
  simp

/- A place below a root is in a folder, under a name. -/
theorem UnderRoot.exists_concat
    {dir l : Location}
    (h : UnderRoot dir l) :
    ∃ parent name, l = parent ++ [name] := by
  rcases List.eq_nil_or_concat l with hNil | ⟨p, n, hEq⟩
  · exact absurd hNil h.ne_nil
  · exact ⟨p, n, by simpa using hEq⟩

/- A copy is below a root exactly if its file is. -/
theorem underRoot_copyPlace_iff
    {dir l : Location} :
    UnderRoot dir (copyPlace l) ↔ UnderRoot dir l :=
  exists_congr fun _ =>
    and_congr_right fun _ => isBelow_copyPlace_iff

end Backup

end LootFilter
