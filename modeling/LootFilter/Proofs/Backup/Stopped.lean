import LootFilter.Proofs.Backup.Written

/-
  Where writing documents stops if it fails.

  A document that is written stands at its place, next to a
  copy, which holds what was there before if it is new.  What
  has changed when writing stops is a file that was written,
  the file at which it stops, or a new copy of one of them.

  Main declarations:
    * `Backup.Stands`
    * `Backup.PutAt`
    * `Backup.GoesElsewhere`
    * `Backup.StoppedAt`
    * `Backup.exists_stoppedAt`
-/

namespace LootFilter

namespace Backup

open Disk (SameFolders node?_put)
open Json (Value)

variable {d kept next now : Disk} {l m x : Location} {p q : Path}
variable {v : Value} {bytes held : ByteArray}
variable {copying writing : Transfer} {reason : IoError}
variable {done : List (Path × Value)}

------------------------------------------------------------
-- One File
------------------------------------------------------------

/-
  Whether a file stands at the place of a path, with its copy.
  A copy that is new holds what stood there before.
-/
structure Stands
    (d now : Disk)
    (p : Path)
    (bytes : ByteArray)
    (l : Location) : Prop where
  place : d.locate p = .ok l
  backup : d.locate (DataFile.backup p) = .ok (copyPlace l)
  file : now.node? l = some (.file bytes)
  copy : now.node? (copyPlace l) ≠ none
  original :
    d.node? (copyPlace l) = none →
      now.node? (copyPlace l) = d.node? l

/- Whether that is all that has changed. -/
structure PutAt
    (d next : Disk)
    (p : Path)
    (bytes : ByteArray)
    (l : Location) : Prop where
  stands : Stands d next p bytes l
  folders : SameFolders d next
  changed :
    ∀ x, next.node? x ≠ d.node? x →
      x = l ∨ (d.node? x = none ∧ x = copyPlace l)

/- Seeing to a copy changes a free place for it at most. -/
theorem KeepStep.changed
    (hDocument : p.IsDocument)
    {failure : Option IoError}
    (hStep : KeepStep copying d p (kept, failure))
    (hDiffers : kept.node? x ≠ d.node? x) :
    d.node? x = none ∧
      ∃ l, d.locate p = .ok l ∧ x = copyPlace l := by
  cases hStep with
  | refused | there => exact absurd rfl hDiffers
  | @copied l m bytes hLocate _ hBackup hFree
  | @torn l m bytes _ _ hLocate _ hBackup hFree =>
      rcases hDocument with ⟨segments, stem, hPath⟩
      rcases exists_parent_of_locate_backup hPath
          (namesEntry_append_json stem) hLocate hBackup with
        ⟨_, _, _, rfl⟩
      have hRoot : copyPlace l ≠ [] :=
        Disk.ne_nil_of_not_folder (d := d) (by simp [hFree])
      rw [node?_put hRoot] at hDiffers
      by_cases hX : x = copyPlace l
      · subst hX
        exact ⟨hFree, l, hLocate, rfl⟩
      · rw [if_neg hX] at hDiffers
        exact absurd rfl hDiffers

/- A copy that was seen to is there, and old or that of now. -/
theorem KeepStep.copy_of_locate
    (hDocument : p.IsDocument)
    (hPlace : d.locate p = .ok l)
    (hStep : KeepStep copying d p (kept, none)) :
    d.locate (DataFile.backup p) = .ok (copyPlace l) ∧
      kept.node? (copyPlace l) ≠ none ∧
      (d.node? (copyPlace l) = none →
        kept.node? (copyPlace l) = d.node? l) := by
  rcases hDocument with ⟨segments, stem, hPath⟩
  cases hStep with
  | there hBackup hTaken =>
      rcases exists_parent_of_locate_backup hPath
          (namesEntry_append_json stem) hPlace hBackup with
        ⟨_, _, _, rfl⟩
      exact
        ⟨hBackup, hTaken, fun hFree => absurd hFree hTaken⟩
  | copied hLocate hFile hBackup hFree =>
      cases hPlace.symm.trans hLocate
      rcases exists_parent_of_locate_backup hPath
          (namesEntry_append_json stem) hPlace hBackup with
        ⟨_, _, _, rfl⟩
      have hRoot : copyPlace l ≠ [] :=
        Disk.ne_nil_of_not_folder (d := d) (by simp [hFree])
      rw [node?_put hRoot, if_pos rfl, hFile]
      exact ⟨hBackup, by simp, fun _ => rfl⟩

/- Once its copy was seen to, bytes are put at a file. -/
theorem KeepStep.putAt
    (hDocument : p.IsDocument)
    (hStep : KeepStep copying d p (kept, none))
    (hLocate : kept.locate p = .ok l)
    (hFree : kept.node? l ≠ some .folder)
    (bytes : ByteArray) :
    PutAt d (kept.put l (.file bytes)) p bytes l := by
  have hFolders := hStep.sameFolders
  have hPlace := hFolders.symm.locate_eq_ok hLocate
  rcases hStep.copy_of_locate hDocument hPlace with
    ⟨hBackup, hCopy, hOriginal⟩
  have hRoot := Disk.ne_nil_of_not_folder hFree
  have hApart : copyPlace l ≠ l :=
    (ne_copyPlace_of_locate hDocument hPlace l).symm
  have hSame :
      ∀ x, x ≠ l →
        (kept.put l (.file bytes)).node? x = kept.node? x :=
    fun x hX => by rw [node?_put hRoot, if_neg hX]
  constructor
  · refine
      { place := hPlace
        backup := hBackup
        file := by rw [node?_put hRoot, if_pos rfl]
        copy := ?_
        original := ?_ }
    · rw [hSame _ hApart]
      exact hCopy
    · rw [hSame _ hApart]
      exact hOriginal
  · exact hFolders.trans (sameFolders_put hFree bytes)
  · intro x hDiffers
    by_cases hX : x = l
    · exact Or.inl hX
    · rw [hSame x hX] at hDiffers
      rcases hStep.changed hDocument hDiffers with
        ⟨hNone, other, hOther, hCopyPlace⟩
      cases hPlace.symm.trans hOther
      exact Or.inr ⟨hNone, hCopyPlace⟩

/- A document that was written is put at its file. -/
theorem FileStep.exists_putAt
    (hDocument : p.IsDocument)
    (hStep : FileStep copying writing d p v (next, none)) :
    ∃ l, PutAt d next p (DataFile.encodeJson v) l := by
  cases hStep with
  | done hKeep hWrite =>
      cases hWrite with
      | whole hLocate hFree =>
          exact ⟨_, hKeep.putAt hDocument hLocate hFree _⟩

------------------------------------------------------------
-- Several Files
------------------------------------------------------------

/- Whether two writings go to different places. -/
def GoesElsewhere
    (d : Disk)
    (a b : Path × Value) : Prop :=
  ∀ l, d.locate a.1 = .ok l → d.locate b.1 ≠ .ok l

/- They do so with the same folders. -/
theorem GoesElsewhere.ofSameFolders
    {a b : Path × Value}
    (hElsewhere : GoesElsewhere d a b)
    (hFolders : SameFolders d next) :
    GoesElsewhere next a b := by
  intro l hA hB
  exact
    hElsewhere l (hFolders.symm.locate_eq_ok hA)
      (hFolders.symm.locate_eq_ok hB)

/- Another file and its copy are as before a file was put. -/
theorem PutAt.node?_eq
    (hPut : PutAt d next p bytes l)
    (hOwn : p.IsDocument)
    (hDocument : q.IsDocument)
    (hPlace : d.locate q = .ok m)
    (hNe : m ≠ l) :
    next.node? m = d.node? m ∧
      next.node? (copyPlace m) = d.node? (copyPlace m) := by
  have hCopies : ∀ x, l ≠ copyPlace x :=
    ne_copyPlace_of_locate hOwn hPut.stands.place
  have hOthers : ∀ x, m ≠ copyPlace x :=
    ne_copyPlace_of_locate hDocument hPlace
  constructor
  · by_contra hDiffers
    rcases hPut.changed m hDiffers with hFile | ⟨_, hCopy⟩
    · exact hNe hFile
    · exact hOthers l hCopy
  · by_contra hDiffers
    rcases hPut.changed (copyPlace m) hDiffers with
      hFile | ⟨_, hCopy⟩
    · exact hCopies m hFile.symm
    · exact hNe (copyPlace_injective hCopy)

/- So another file that stands stood before it was put. -/
theorem PutAt.stands_before
    (hPut : PutAt d next p bytes l)
    (hOwn : p.IsDocument)
    (hDocument : q.IsDocument)
    (hElsewhere : d.locate q ≠ .ok l)
    (hStands : Stands next now q held m) :
    Stands d now q held m := by
  have hBack := hPut.folders.symm
  have hPlace := hBack.locate_eq_ok hStands.place
  have hNe : m ≠ l := by
    rintro rfl
    exact hElsewhere hPlace
  rcases hPut.node?_eq hOwn hDocument hPlace hNe with
    ⟨hSame, hSameCopy⟩
  refine
    { hStands with
      place := hPlace
      backup := hBack.locate_eq_ok hStands.backup
      original := ?_ }
  rw [← hSame, ← hSameCopy]
  exact hStands.original

/-
  What writing documents comes to that stops at a file.  The
  documents before stand at their places.  The file is as it
  was, or writing it was broken off once its copy was seen to.
  What has changed is one of these files, or a new copy of one.
-/
structure StoppedAt
    (writing : Transfer)
    (reason : IoError)
    (d now : Disk)
    (done : List (Path × Value))
    (p : Path)
    (v : Value) : Prop where
  folders : SameFolders d now
  stands :
    ∀ entry ∈ done, ∃ l,
      Stands d now entry.1 (DataFile.encodeJson entry.2) l
  file :
    (∀ l, d.locate p = .ok l → now.node? l = d.node? l) ∨
      ∃ left l,
        writing = .stopped reason left ∧ Stands d now p left l
  changed :
    ∀ x, now.node? x ≠ d.node? x →
      ∃ entry ∈ done ++ [(p, v)], ∃ l,
        d.locate entry.1 = .ok l ∧
          (x = l ∨ (d.node? x = none ∧ x = copyPlace l))

/- Writing may stop while the copy of a file is seen to. -/
theorem KeepStep.stoppedAt
    (hDocument : p.IsDocument)
    {failure : Option IoError}
    (hStep : KeepStep copying d p (kept, failure)) :
    StoppedAt writing reason d kept [] p v where
  folders := hStep.sameFolders
  stands := by simp
  file := by
    left
    intro l hLocate
    by_contra hDiffers
    rcases hStep.changed hDocument hDiffers with
      ⟨_, m, _, hCopy⟩
    exact ne_copyPlace_of_locate hDocument hLocate m hCopy
  changed := by
    intro x hDiffers
    rcases hStep.changed hDocument hDiffers with
      ⟨hFree, l, hLocate, hCopy⟩
    exact
      ⟨(p, v), by simp, l, hLocate, Or.inr ⟨hFree, hCopy⟩⟩

/- It may stop at its first file. -/
theorem FileStep.exists_stoppedAt
    (hDocument : p.IsDocument)
    {e : WriteError}
    (hStep : FileStep copying writing d p v (next, some e)) :
    ∃ reason,
      e = .io p reason ∧
        StoppedAt writing reason d next [] p v := by
  cases hStep with
  | uncopied hKeep =>
      exact ⟨_, rfl, hKeep.stoppedAt hDocument⟩
  | @unwritten kept next reason hKeep hWrite =>
      refine ⟨reason, rfl, ?_⟩
      cases hWrite with
      | refused => exact hKeep.stoppedAt hDocument
      | @stopped l _ left hLocate hFree hTransfer =>
          have hPut := hKeep.putAt hDocument hLocate hFree left
          exact
            { folders := hPut.folders
              stands := by simp
              file := Or.inr ⟨left, l, hTransfer, hPut.stands⟩
              changed := fun x hDiffers =>
                ⟨(p, v), by simp, l, hPut.stands.place,
                  hPut.changed x hDiffers⟩ }

/-
  Writing that stops after its first file was done stops where
  the rest of it does, if the rest goes elsewhere.
-/
theorem StoppedAt.cons
    {entry : Path × Value}
    (hDocument : entry.1.IsDocument)
    (hDocuments :
      ∀ other ∈ done ++ [(p, v)], other.1.IsDocument)
    (hElsewhere :
      ∀ other ∈ done ++ [(p, v)], GoesElsewhere d entry other)
    (hPut :
      PutAt d next entry.1 (DataFile.encodeJson entry.2) l)
    (hRest : StoppedAt writing reason next now done p v) :
    StoppedAt writing reason d now (entry :: done) p v := by
  have hBack := hPut.folders.symm
  have hPlace := hPut.stands.place
  have hOwn := ne_copyPlace_of_locate hDocument hPlace
  have hLast : (p, v) ∈ done ++ [(p, v)] := by simp
  have hApart :
      ∀ other ∈ done ++ [(p, v)], d.locate other.1 ≠ .ok l :=
    fun other hMem => hElsewhere other hMem l hPlace
  -- The rest of it changes neither the file nor its copy.
  have hKept : now.node? l = next.node? l := by
    by_contra hDiffers
    rcases hRest.changed l hDiffers with
      ⟨other, hMem, m, hThere, rfl | ⟨_, hCopy⟩⟩
    · exact hApart other hMem (hBack.locate_eq_ok hThere)
    · exact hOwn m hCopy
  have hKeptCopy :
      now.node? (copyPlace l) = next.node? (copyPlace l) := by
    by_contra hDiffers
    rcases hRest.changed (copyPlace l) hDiffers with
      ⟨other, hMem, m, hThere, hFile | ⟨hFree, _⟩⟩
    · exact
        ne_copyPlace_of_locate (hDocuments other hMem) hThere l
          hFile.symm
    · exact hPut.stands.copy hFree
  refine
    { folders := hPut.folders.trans hRest.folders
      stands := ?_
      file := ?_
      changed := ?_ }
  · rw [List.forall_mem_cons]
    constructor
    · refine ⟨l, { hPut.stands with
        file := hKept.trans hPut.stands.file
        copy := ?_
        original := ?_ }⟩
      · rw [hKeptCopy]
        exact hPut.stands.copy
      · rw [hKeptCopy]
        exact hPut.stands.original
    · intro other hMem
      have hIn : other ∈ done ++ [(p, v)] :=
        List.mem_append_left _ hMem
      rcases hRest.stands other hMem with ⟨m, hStands⟩
      exact
        ⟨m,
          hPut.stands_before hDocument (hDocuments other hIn)
            (hApart other hIn) hStands⟩
  · rcases hRest.file with hSame | ⟨left, m, hTransfer, hTorn⟩
    · left
      intro m hLocate
      have hNe : m ≠ l := by
        rintro rfl
        exact hApart (p, v) hLast hLocate
      rw [hSame m (hPut.folders.locate_eq_ok hLocate)]
      exact
        (hPut.node?_eq hDocument (hDocuments (p, v) hLast)
          hLocate hNe).1
    · right
      exact
        ⟨left, m, hTransfer,
          hPut.stands_before hDocument
            (hDocuments (p, v) hLast) (hApart (p, v) hLast)
            hTorn⟩
  · intro x hDiffers
    rw [List.cons_append]
    by_cases hNext : now.node? x = next.node? x
    · rw [hNext] at hDiffers
      exact
        ⟨entry, List.mem_cons_self, l, hPlace,
          hPut.changed x hDiffers⟩
    · rcases hRest.changed x hNext with
        ⟨other, hMem, m, hThere, hCase⟩
      refine
        ⟨other, List.mem_cons_of_mem _ hMem, m,
          hBack.locate_eq_ok hThere, ?_⟩
      rcases hCase with hFile | ⟨hFree, hCopy⟩
      · exact Or.inl hFile
      · -- It was free before, too, or it was just written.
        refine Or.inr ⟨?_, hCopy⟩
        by_contra hTaken
        have hNew : next.node? x ≠ d.node? x := by
          rw [hFree]
          exact Ne.symm hTaken
        rcases hPut.changed x hNew with rfl | ⟨hNone, _⟩
        · rw [hPut.stands.file] at hFree
          cases hFree
        · exact hTaken hNone

/-
  Writing documents that fails has stopped at one of them, and
  the error names that one.
-/
theorem exists_stoppedAt
    {device : Device}
    {files : List (Path × Value)}
    {e : WriteError}
    (hFailed : (writeFiles device d files).failure = some e)
    (hDocuments : ∀ entry ∈ files, entry.1.IsDocument)
    (hElsewhere : files.Pairwise (GoesElsewhere d)) :
    ∃ done p v rest reason,
      files = done ++ (p, v) :: rest ∧ e = .io p reason ∧
        StoppedAt (device.writing done.length p) reason d
          (writeFiles device d files).disk done p v := by
  induction files generalizing device d with
  | nil => cases hFailed
  | cons entry files ih =>
      obtain ⟨p, v⟩ := entry
      rw [List.forall_mem_cons] at hDocuments
      rw [List.pairwise_cons] at hElsewhere
      rcases writeFiles_cons device d p v files with
        ⟨next, fault, hStep, hRun⟩ | ⟨next, r, hStep, rfl, hRun⟩
      · rw [hRun] at hFailed ⊢
        cases hFailed
        rcases hStep.exists_stoppedAt hDocuments.1 with
          ⟨reason, rfl, hStopped⟩
        exact ⟨[], p, v, files, reason, rfl, rfl, hStopped⟩
      · rw [hRun] at hFailed ⊢
        rcases hStep.exists_putAt hDocuments.1 with ⟨l, hPut⟩
        have hNext : files.Pairwise (GoesElsewhere next) :=
          hElsewhere.2.imp fun hApart =>
            hApart.ofSameFolders hPut.folders
        rcases ih hFailed hDocuments.2 hNext with
          ⟨done, q, u, rest, reason, rfl, hError, hStopped⟩
        have hIn :
            ∀ other ∈ done ++ [(q, u)],
              other ∈ done ++ (q, u) :: rest := by
          intro other hMem
          simp only [List.mem_append, List.mem_cons,
            List.not_mem_nil, or_false] at hMem ⊢
          rcases hMem with hDone | hHere
          · exact Or.inl hDone
          · exact Or.inr (Or.inl hHere)
        refine
          ⟨(p, v) :: done, q, u, rest, reason, rfl, hError, ?_⟩
        exact
          hStopped.cons hDocuments.1
            (fun other hMem =>
              hDocuments.2 other (hIn other hMem))
            (fun other hMem =>
              hElsewhere.1 other (hIn other hMem))
            hPut

end Backup

end LootFilter
