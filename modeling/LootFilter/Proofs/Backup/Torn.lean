import LootFilter.Proofs.Backup.Kept

/-
  No original is lost when files are written, unless its copy
  was broken off.

  A copy that was broken off is later taken for a whole one.
  So the files are kept as if the first tree had held what is
  in the copy: the invariant is stated for some tree that
  differs from the first one in the bytes of such files only.

  Main declarations:
    * `Backup.Marred`
    * `Backup.Marred.node?_eq`
    * `Backup.KeptBut`
    * `Backup.KeptBut.keepStep`
    * `Backup.KeptBut.fileStep`
    * `Backup.KeptBut.writeFiles`
-/

namespace LootFilter

------------------------------------------------------------
-- Broken Copies
------------------------------------------------------------

/- Whether a transfer is broken off on the way. -/
def Transfer.IsStopped (t : Transfer) : Prop :=
  ∃ e left, t = .stopped e left

/-
  Whether a device breaks off copying the file at a place.
  What it would do to files that nobody copies has no effect,
  so it may be taken to break off only what was broken off.
-/
def Device.Tears
    (device : Device)
    (d : Disk)
    (l : Location) : Prop :=
  ∃ i p, d.locate p = .ok l ∧ (device.copying i p).IsStopped

namespace Backup

open Disk (WellFormed SameFolders WriteStep node?_put)

------------------------------------------------------------
-- Changed Files
------------------------------------------------------------

/- A tree in which some files hold other bytes than at first. -/
inductive Marred
    (P : Location → Prop)
    (before : Disk) : Disk → Prop
| refl : Marred P before before
| tear
    {original : Disk}
    {l : Location}
    {bytes : ByteArray}
    (hMarred : Marred P before original)
    (hPlace : P l)
    (hFile : original.node? l = some (.file bytes))
    (left : ByteArray) :
    Marred P before (original.put l (.file left))

namespace Marred

variable {P : Location → Prop} {before original : Disk}
variable {dir l : Location}

/- A file does not stand at the root. -/
theorem ne_nil_of_file
    {bytes : ByteArray}
    (hFile : original.node? l = some (.file bytes)) :
    l ≠ [] :=
  Disk.ne_nil_of_not_folder (d := original) (by simp [hFile])

/- The folders are those of the first tree. -/
theorem sameFolders (hMarred : Marred P before original) :
    SameFolders before original := by
  induction hMarred with
  | refl => exact SameFolders.refl before
  | tear _ _ hFile left ih =>
      exact ih.trans (sameFolders_put (by simp [hFile]) left)

/- All other places are as in the first tree. -/
theorem node?_eq
    (hMarred : Marred P before original)
    (hNot : ¬ P l) :
    original.node? l = before.node? l := by
  induction hMarred with
  | refl => rfl
  | tear _ hPlace hFile _ ih =>
      rw [node?_put (ne_nil_of_file hFile), if_neg, ih]
      rintro rfl
      exact hNot hPlace

/- The same places are taken. -/
theorem node?_ne_none_iff (hMarred : Marred P before original) :
    original.node? l ≠ none ↔ before.node? l ≠ none := by
  induction hMarred with
  | refl => exact Iff.rfl
  | @tear original m bytes _ _ hFile left ih =>
      rw [node?_put (ne_nil_of_file hFile), ← ih]
      by_cases hEq : l = m
      · simp [hEq, hFile]
      · rw [if_neg hEq]

/- If the first tree is well-formed, it is, too. -/
theorem wellFormed
    (hMarred : Marred P before original)
    (hTree : before.WellFormed) :
    original.WellFormed := by
  induction hMarred with
  | refl => exact hTree
  | @tear original m bytes _ _ hFile left ih =>
      have hRoot := ne_nil_of_file hFile
      rcases List.eq_nil_or_concat m with
        hNil | ⟨parent, name, rfl⟩
      · exact absurd hNil hRoot
      · rw [List.concat_eq_append] at hFile ⊢
        exact
          ih.put (ih.folder_of_append (by simp) hFile)
            (ih.isPlace_of_node? hFile) (by simp [hFile]) left

/- If the first tree is pristine, it is, too. -/
theorem pristine
    (hMarred : Marred P before original)
    (hPristine : Pristine before dir) :
    Pristine original dir := by
  intro parent name hUnder hNode
  exact
    hPristine parent name hUnder
      (hMarred.node?_ne_none_iff.mp hNode)

/- If no file may be changed, it is the first tree. -/
theorem eq_before
    (hMarred : Marred P before original)
    (hNone : ∀ l, ¬ P l) :
    original = before := by
  cases hMarred with
  | refl => rfl
  | tear _ hPlace => exact absurd hPlace (hNone _)

end Marred

------------------------------------------------------------
-- The Invariant
------------------------------------------------------------

/- Whether the first files are kept, some with other bytes. -/
def KeptBut
    (P : Location → Prop)
    (before : Disk)
    (dir : Location)
    (now : Disk) : Prop :=
  ∃ original,
    Marred P before original ∧ Kept original dir now

section Writing

variable {P : Location → Prop} {before now kept next : Disk}
variable {dir : Location} {p : Path}
variable {copying writing : Transfer}

/- If no file may have other bytes, all are kept. -/
theorem KeptBut.toKept
    (hKept : KeptBut P before dir now)
    (hNone : ∀ l, ¬ P l) :
    Kept before dir now := by
  rcases hKept with ⟨original, hMarred, hNow⟩
  rwa [hMarred.eq_before hNone] at hNow

/- Whatever is kept is kept but for some bytes. -/
theorem Kept.keptBut
    (hKept : Kept before dir now) :
    KeptBut P before dir now :=
  ⟨before, .refl, hKept⟩

/- The folders are those of the first tree. -/
theorem KeptBut.sameFolders
    (hKept : KeptBut P before dir now) :
    SameFolders before now := by
  rcases hKept with ⟨original, hMarred, hNow⟩
  exact hMarred.sameFolders.trans hNow.folders

/-
  A new copy of a file keeps the files, maybe as if the first
  tree had held what is in the copy.
-/
theorem Kept.newCopy
    {original : Disk}
    (hKept : Kept original dir now)
    (hPristine : Pristine original dir)
    (hDocument : p.IsDocument)
    {l m : Location}
    {bytes : ByteArray}
    (hLocate : now.locate p = .ok l)
    (hFile : now.node? l = some (.file bytes))
    (hBackup : now.locate (DataFile.backup p) = .ok m)
    (hFree : now.node? m = none)
    (left : ByteArray) :
    Kept original dir (now.put m (.file left)) ∨
      (original.node? l = some (.file bytes) ∧
        Kept (original.put l (.file left)) dir
          (now.put m (.file left))) := by
  rcases hDocument with ⟨segments, stem, hPath⟩
  have hPlace := hKept.tree.isPlace_of_locate hBackup
  have hName := isBackupName_append_json stem
  rcases exists_parent_of_locate_backup hPath
      (namesEntry_append_json stem) hLocate hBackup with
    ⟨parent, hParent, rfl, rfl⟩
  by_cases hUnder : UnderRoot dir (parent ++ [stem ++ ".json"])
  · right
    exact
      ⟨hKept.file_of_free hUnder hName hFile hFree,
        hKept.putCopy hPristine hUnder hName hFile hFree hPlace
          left⟩
  · left
    rw [← underRoot_copyPlace_iff] at hUnder
    rw [copyPlace_concat] at hUnder hPlace hFree ⊢
    exact
      hKept.putOutside hUnder hParent hPlace (by simp [hFree])
        left

/- Seeing to the copy of a document keeps the files. -/
theorem KeptBut.keepStep
    (hKept : KeptBut P before dir now)
    (hPristine : Pristine before dir)
    (hDocument : p.IsDocument)
    (hTorn :
      ∀ l, before.locate p = .ok l → copying.IsStopped → P l)
    {failure : Option IoError}
    (hStep : KeepStep copying now p (kept, failure)) :
    KeptBut P before dir kept := by
  have hFolders := hKept.sameFolders.symm
  rcases hKept with ⟨original, hMarred, hNow⟩
  have hOriginal := hMarred.pristine hPristine
  cases hStep with
  | refused | there => exact ⟨original, hMarred, hNow⟩
  | @copied l m bytes hLocate hFile hBackup hFree =>
      rcases hNow.newCopy hOriginal hDocument hLocate hFile
          hBackup hFree bytes with
        hNext | ⟨hSame, hNext⟩
      · exact ⟨original, hMarred, hNext⟩
      · rw [Disk.put_of_node? (Marred.ne_nil_of_file hSame)
          hSame] at hNext
        exact ⟨original, hMarred, hNext⟩
  | @torn l m bytes left e hLocate hFile hBackup hFree hStop =>
      rcases hNow.newCopy hOriginal hDocument hLocate hFile
          hBackup hFree left with
        hNext | ⟨hSame, hNext⟩
      · exact ⟨original, hMarred, hNext⟩
      · have hPlace :=
          hTorn l (hFolders.locate_eq_ok hLocate)
            ⟨e, left, hStop⟩
        exact ⟨_, hMarred.tear hPlace hSame left, hNext⟩

/-
  Once its copy was seen to, writing a document keeps the
  files, also if it is broken off.
-/
theorem KeptBut.writeStep
    (hKept : KeptBut P before dir kept)
    (hPristine : Pristine before dir)
    (hDocument : p.IsDocument)
    {m : Location}
    (hBackup : kept.locate (DataFile.backup p) = .ok m)
    (hTaken : kept.node? m ≠ none)
    {bytes : ByteArray}
    {failure : Option IoError}
    (hStep : WriteStep writing kept p bytes (next, failure)) :
    KeptBut P before dir next := by
  rcases hKept with ⟨original, hMarred, hNow⟩
  rcases hStep.eq_or_put with
    rfl | ⟨l, held, hLocate, hFree, rfl⟩
  · exact ⟨original, hMarred, hNow⟩
  · rcases hDocument with ⟨segments, stem, hPath⟩
    have hPlace := hNow.tree.isPlace_of_locate hLocate
    rcases exists_parent_of_locate_backup hPath
        (namesEntry_append_json stem) hLocate hBackup with
      ⟨parent, hParent, rfl, rfl⟩
    exact
      ⟨original, hMarred,
        hNow.putFile (hMarred.pristine hPristine)
          (isBackupName_append_json stem) hParent hPlace hFree
          hTaken held⟩

/- Writing a document keeps the files, wherever it stops. -/
theorem KeptBut.fileStep
    (hKept : KeptBut P before dir now)
    (hPristine : Pristine before dir)
    (hDocument : p.IsDocument)
    (hTorn :
      ∀ l, before.locate p = .ok l → copying.IsStopped → P l)
    {v : Json.Value}
    {failure : Option WriteError}
    (hStep : FileStep copying writing now p v (next, failure)) :
    KeptBut P before dir next := by
  cases hStep with
  | uncopied hKeep =>
      exact hKept.keepStep hPristine hDocument hTorn hKeep
  | unwritten hKeep hWrite | done hKeep hWrite =>
      rcases hKeep.exists_copy with ⟨m, hBackup, hTaken⟩
      exact
        (hKept.keepStep hPristine hDocument hTorn
          hKeep).writeStep hPristine hDocument
          (hKeep.sameFolders.locate_eq_ok hBackup) hTaken
          hWrite

/- Writing documents keeps the files, wherever it stops. -/
theorem KeptBut.writeFiles
    (hKept : KeptBut P before dir now)
    (hPristine : Pristine before dir)
    {device : Device}
    (hTorn : ∀ l, device.Tears before l → P l)
    {staged : List (Path × Json.Value)}
    (hDocuments : ∀ entry ∈ staged, entry.1.IsDocument) :
    KeptBut P before dir
      (writeFiles device now staged).disk := by
  induction staged generalizing device now with
  | nil => exact hKept
  | cons entry rest ih =>
      obtain ⟨p, v⟩ := entry
      rw [List.forall_mem_cons] at hDocuments
      have hFirst :
          ∀ {next failure},
            FileStep (device.copying 0 p) (device.writing 0 p)
                now p v (next, failure) →
              KeptBut P before dir next :=
        hKept.fileStep hPristine hDocuments.1
          fun l hLocate hStop => hTorn l ⟨0, p, hLocate, hStop⟩
      rcases writeFiles_cons device now p v rest with
        ⟨next, e, hStep, hRun⟩ | ⟨next, r, hStep, rfl, hRun⟩
      · rw [hRun]
        exact hFirst hStep
      · rw [hRun]
        apply ih (hFirst hStep) _ hDocuments.2
        rintro l ⟨i, q, hLocate, hStop⟩
        exact hTorn l ⟨i + 1, q, hLocate, hStop⟩

end Writing

end Backup

end LootFilter
