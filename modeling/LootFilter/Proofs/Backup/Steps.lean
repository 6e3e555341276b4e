import LootFilter.Proofs.Backup.Copies
import LootFilter.Proofs.Disk.Files
import LootFilter.Proofs.Documents

/-
  What the steps of writing a file come to.

  The copy of a file is seen to, and then the file is written.
  A device may refuse either step, or break it off on the way.
  A copy that is broken off stays at its place, where it is
  later taken for a whole one.

  Main declarations:
    * `Backup.KeepStep`
    * `Backup.keepStep`
    * `Backup.KeepStep.exists_copy`
    * `Backup.FileStep`
    * `Backup.fileStep`
    * `Backup.writeFiles_cons`
    * `Backup.exists_parent_of_locate_backup`
-/

namespace LootFilter

namespace Backup

open Disk (NamesEntry WriteStep)
open Json (Value)

variable {d kept next : Disk} {l m : Location} {p : Path}
variable {copying writing : Transfer} {v : Value}

------------------------------------------------------------
-- Seeing to a Copy
------------------------------------------------------------

/-
  What seeing to the copy of a file comes to: nothing, or a new
  file at a place that was free.  It holds what the file holds,
  or what a transfer that was broken off has left.
-/
inductive KeepStep
    (t : Transfer)
    (d : Disk)
    (p : Path) : Disk × Option IoError → Prop
| refused (e : IoError) :
    KeepStep t d p (d, some e)
| there
    {m : Location}
    (hBackup : d.locate (DataFile.backup p) = .ok m)
    (hTaken : d.node? m ≠ none) :
    KeepStep t d p (d, none)
| copied
    {l m : Location}
    {bytes : ByteArray}
    (hLocate : d.locate p = .ok l)
    (hFile : d.node? l = some (.file bytes))
    (hBackup : d.locate (DataFile.backup p) = .ok m)
    (hFree : d.node? m = none)
    (hTransfer : t = .whole) :
    KeepStep t d p (d.put m (.file bytes), none)
| torn
    {l m : Location}
    {bytes left : ByteArray}
    {e : IoError}
    (hLocate : d.locate p = .ok l)
    (hFile : d.node? l = some (.file bytes))
    (hBackup : d.locate (DataFile.backup p) = .ok m)
    (hFree : d.node? m = none)
    (hTransfer : t = .stopped e left) :
    KeepStep t d p (d.put m (.file left), some e)

/- Seeing to a copy comes to one of these. -/
theorem keepStep
    (t : Transfer)
    (d : Disk)
    (p : Path) :
    KeepStep t d p (keepPristine t d p) := by
  unfold keepPristine
  split
  · rename_i hNode
    rcases Disk.hasNode_iff.mp hNode with
      ⟨m, n, hBackup, hSome⟩
    exact .there hBackup (by simp [hSome])
  · rename_i hNone
    have hFree :
        ∀ m, d.locate (DataFile.backup p) = .ok m →
          d.node? m = none := by
      intro m hBackup
      by_contra hTaken
      rcases Option.ne_none_iff_exists'.mp hTaken with
        ⟨n, hNode⟩
      exact hNone (Disk.hasNode_iff.mpr ⟨m, n, hBackup, hNode⟩)
    have hStep := Disk.copyStep t d p (DataFile.backup p)
    generalize d.copy t p (DataFile.backup p) = result
      at hStep ⊢
    cases hStep with
    | refused e => exact .refused e
    | whole hLocate hFile hBackup _ hTransfer =>
        exact
          .copied hLocate hFile hBackup (hFree _ hBackup)
            hTransfer
    | stopped hLocate hFile hBackup _ hTransfer =>
        exact
          .torn hLocate hFile hBackup (hFree _ hBackup)
            hTransfer

/- Putting a file where no folder is keeps the folders. -/
theorem sameFolders_put
    (hFree : d.node? l ≠ some .folder)
    (bytes : ByteArray) :
    Disk.SameFolders d (d.put l (.file bytes)) where
  home := rfl
  folder := by
    intro x
    rw [Disk.node?_put (Disk.ne_nil_of_not_folder hFree)]
    by_cases hEq : x = l
    · subst hEq
      simp [hFree]
    · rw [if_neg hEq]

/- Seeing to a copy keeps the folders. -/
theorem KeepStep.sameFolders
    {failure : Option IoError}
    (hStep : KeepStep copying d p (kept, failure)) :
    Disk.SameFolders d kept := by
  cases hStep with
  | refused | there => exact Disk.SameFolders.refl d
  | copied _ _ _ hFree | torn _ _ _ hFree =>
      exact sameFolders_put (by simp [hFree]) _

/- Once a copy was seen to, there is something at its place. -/
theorem KeepStep.exists_copy
    (hStep : KeepStep copying d p (kept, none)) :
    ∃ m,
      d.locate (DataFile.backup p) = .ok m ∧
        kept.node? m ≠ none := by
  cases hStep with
  | there hBackup hTaken => exact ⟨_, hBackup, hTaken⟩
  | @copied l m bytes _ _ hBackup hFree =>
      have hRoot : m ≠ [] :=
        Disk.ne_nil_of_not_folder (d := d) (by simp [hFree])
      exact ⟨m, hBackup, by simp [Disk.node?_put hRoot]⟩

------------------------------------------------------------
-- Writing a File
------------------------------------------------------------

/-
  What writing a document over a file comes to: it stops at the
  copy or at the file, or is done.
-/
inductive FileStep
    (copying writing : Transfer)
    (d : Disk)
    (p : Path)
    (v : Value) : Disk × Option WriteError → Prop
| uncopied
    {kept : Disk}
    {e : IoError}
    (hKeep : KeepStep copying d p (kept, some e)) :
    FileStep copying writing d p v (kept, some (.io p e))
| unwritten
    {kept next : Disk}
    {e : IoError}
    (hKeep : KeepStep copying d p (kept, none))
    (hWrite :
      WriteStep writing kept p (DataFile.encodeJson v)
        (next, some e)) :
    FileStep copying writing d p v (next, some (.io p e))
| done
    {kept next : Disk}
    (hKeep : KeepStep copying d p (kept, none))
    (hWrite :
      WriteStep writing kept p (DataFile.encodeJson v)
        (next, none)) :
    FileStep copying writing d p v (next, none)

/- Writing a document comes to one of these. -/
theorem fileStep
    (copying writing : Transfer)
    (d : Disk)
    (p : Path)
    (v : Value) :
    FileStep copying writing d p v
      (writeFile copying writing d p v) := by
  have hKeep := keepStep copying d p
  unfold writeFile
  generalize keepPristine copying d p = result at hKeep ⊢
  obtain ⟨kept, failure⟩ := result
  cases failure with
  | some e => exact .uncopied hKeep
  | none =>
      have hWrite :=
        Disk.writeStep writing kept p (DataFile.encodeJson v)
      dsimp only [DataFile.writeJson]
      generalize
        kept.write writing p (DataFile.encodeJson v) = result
          at hWrite ⊢
      obtain ⟨next, failure⟩ := result
      cases failure with
      | some e => exact .unwritten hKeep hWrite
      | none => exact .done hKeep hWrite

/-
  What writing documents comes to: it stops at the first one,
  or is done with it and goes on with the others.
-/
theorem writeFiles_cons
    (device : Device)
    (d : Disk)
    (p : Path)
    (v : Value)
    (rest : List (Path × Value)) :
    (∃ next e,
      FileStep (device.copying 0 p) (device.writing 0 p) d p v
          (next, some e) ∧
        writeFiles device d ((p, v) :: rest) =
          ⟨next, [], some e⟩) ∨
    ∃ next r,
      FileStep (device.copying 0 p) (device.writing 0 p) d p v
          (next, none) ∧
        writeFiles device.next next rest = r ∧
        writeFiles device d ((p, v) :: rest) =
          ⟨r.disk, p :: r.done, r.failure⟩ := by
  have hStep :=
    fileStep (device.copying 0 p) (device.writing 0 p) d p v
  rw [writeFiles]
  generalize
    writeFile (device.copying 0 p) (device.writing 0 p) d p v =
      result at hStep ⊢
  obtain ⟨next, failure⟩ := result
  cases failure with
  | some e => exact Or.inl ⟨next, e, hStep, rfl⟩
  | none => exact Or.inr ⟨next, _, hStep, rfl, rfl⟩

------------------------------------------------------------
-- Documents
------------------------------------------------------------

/- The name of a document names something. -/
theorem namesEntry_append_json (stem : String) :
    NamesEntry (stem ++ ".json") := by
  have hLength : 4 < (stem ++ ".json").toList.length := by
    simp
  refine ⟨?_, ?_, ?_⟩ <;>
  · intro hEq
    rw [hEq] at hLength
    simp at hLength

/- The name of a document is not that of a copy. -/
theorem isBackupName_append_json (stem : String) :
    isBackupName (stem ++ ".json") = false := by
  rw [← Bool.not_eq_true, isBackupName_iff]
  rintro ⟨other, hEq⟩
  have hLast :=
    congrArg (fun s => s.toList.getLast?) hEq
  simp [DataFile.backupSuffix] at hLast

/- The path of a copy is in the same folder. -/
theorem backup_eq_withName
    {segments : List String}
    {name : String}
    (hPath : p.segments = segments ++ [name]) :
    DataFile.backup p =
      p.withName (name ++ DataFile.backupSuffix) := by
  simp [DataFile.backup, hPath]

/-
  A path with its copy's path: if both lead somewhere, the
  second leads to the copy of where the first does.
-/
theorem exists_parent_of_locate_backup
    {segments : List String}
    {name : String}
    (hPath : p.segments = segments ++ [name])
    (hName : NamesEntry name)
    (hLocate : d.locate p = .ok l)
    (hBackup : d.locate (DataFile.backup p) = .ok m) :
    ∃ parent,
      d.node? parent = some .folder ∧
        l = parent ++ [name] ∧ m = copyPlace l := by
  rw [backup_eq_withName hPath] at hBackup
  rcases Disk.exists_parent_of_locate_withName hPath hName
      (namesEntry_append_backupSuffix name) hLocate
      hBackup with
    ⟨parent, hFolder, hL, hM⟩
  refine ⟨parent, hFolder, hL, ?_⟩
  rw [hL, hM, copyPlace_concat]

end Backup

end LootFilter
