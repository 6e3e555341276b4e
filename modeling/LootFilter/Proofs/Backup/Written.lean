import LootFilter.Proofs.Backup.Kept

/-
  What writing documents changes.

  A document is written at its place, after its copy next to
  it.  So writing documents leaves the folders and all other
  places alone, up to any failure; and if it succeeds, a place
  holds the last of the documents that are written to it.

  Main declarations:
    * `Backup.ApartFrom`
    * `Backup.Spares`
    * `Backup.spares_writeFiles`
    * `Backup.exists_place_of_writeFiles`
    * `Backup.node?_writeFiles_of_mem`
-/

namespace LootFilter

namespace Backup

open Disk (SameFolders node?_put)
open Json (Value)

variable {d next kept : Disk} {l x : Location} {p : Path}
variable {copying writing : Transfer} {device : Device}

------------------------------------------------------------
-- Other Places
------------------------------------------------------------

/- Whether a place is neither that of a path nor of its copy. -/
def ApartFrom
    (d : Disk)
    (p : Path)
    (x : Location) : Prop :=
  ∀ l, d.locate p = .ok l → x ≠ l ∧ x ≠ copyPlace l

/- The same folders lead apart from the same places. -/
theorem ApartFrom.ofSameFolders
    (hApart : ApartFrom d p x)
    (hFolders : SameFolders d next) :
    ApartFrom next p x := by
  intro l hLocate
  exact hApart l (hFolders.symm.locate_eq_ok hLocate)

/- Whether a tree has the folders and some places of another. -/
structure Spares
    (P : Location → Prop)
    (d next : Disk) : Prop where
  folders : SameFolders d next
  node : ∀ x, P x → next.node? x = d.node? x

variable {P Q : Location → Prop}

/- A tree has all that it has. -/
theorem Spares.refl (d : Disk) : Spares P d d where
  folders := SameFolders.refl d
  node _ _ := rfl

/- What is spared twice is spared. -/
theorem Spares.trans
    {last : Disk}
    (hFirst : Spares P d next)
    (hSecond : Spares P next last) :
    Spares P d last where
  folders := hFirst.folders.trans hSecond.folders
  node x hSpared :=
    (hSecond.node x hSpared).trans (hFirst.node x hSpared)

/- Fewer places are spared, too. -/
theorem Spares.mono
    (hSpares : Spares P d next)
    (hFewer : ∀ x, Q x → P x) :
    Spares Q d next where
  folders := hSpares.folders
  node x hSpared := hSpares.node x (hFewer x hSpared)

/- Putting a file where no folder is spares other places. -/
theorem spares_put
    (hFolder : d.node? l ≠ some .folder)
    (bytes : ByteArray) :
    Spares (· ≠ l) d (d.put l (.file bytes)) := by
  refine ⟨sameFolders_put hFolder bytes, ?_⟩
  intro x hNe
  rw [node?_put (Disk.ne_nil_of_not_folder hFolder), if_neg hNe]

/- Seeing to the copy of a document spares other places. -/
theorem KeepStep.spares
    (hDocument : p.IsDocument)
    {failure : Option IoError}
    (hStep : KeepStep copying d p (kept, failure)) :
    Spares (ApartFrom d p) d kept := by
  have hPut :
      ∀ {l m : Location} (bytes : ByteArray),
        d.locate p = .ok l →
          d.locate (DataFile.backup p) = .ok m →
            d.node? m = none →
              Spares (ApartFrom d p) d
                (d.put m (.file bytes)) := by
    intro l m bytes hLocate hBackup hFree
    rcases hDocument with ⟨segments, stem, hPath⟩
    rcases exists_parent_of_locate_backup hPath
        (namesEntry_append_json stem) hLocate hBackup with
      ⟨_, _, _, rfl⟩
    have hFolder : d.node? (copyPlace l) ≠ some .folder := by
      simp [hFree]
    exact
      (spares_put hFolder bytes).mono fun x hApart =>
        (hApart l hLocate).2
  cases hStep with
  | refused | there => exact Spares.refl d
  | copied hLocate _ hBackup hFree
  | torn hLocate _ hBackup hFree =>
      exact hPut _ hLocate hBackup hFree

/- Writing a document spares other places. -/
theorem FileStep.spares
    (hDocument : p.IsDocument)
    {v : Value}
    {failure : Option WriteError}
    (hStep : FileStep copying writing d p v (next, failure)) :
    Spares (ApartFrom d p) d next := by
  cases hStep with
  | uncopied hKeep => exact hKeep.spares hDocument
  | unwritten hKeep hWrite | done hKeep hWrite =>
      have hKept := hKeep.spares hDocument
      rcases hWrite.eq_or_put with
        rfl | ⟨l, held, hLocate, hFolder, rfl⟩
      · exact hKept
      · have hPlace :=
          hKept.folders.symm.locate_eq_ok hLocate
        apply hKept.trans
        exact
          (spares_put hFolder held).mono fun x hApart =>
            (hApart l hPlace).1

/- Writing documents spares places apart from all of them. -/
theorem spares_writeFiles
    (device : Device)
    (d : Disk)
    {staged : List (Path × Value)}
    (hDocuments : ∀ entry ∈ staged, entry.1.IsDocument) :
    Spares (fun x => ∀ entry ∈ staged, ApartFrom d entry.1 x)
      d (writeFiles device d staged).disk := by
  induction staged generalizing device d with
  | nil => exact Spares.refl d
  | cons entry rest ih =>
      obtain ⟨p, v⟩ := entry
      rw [List.forall_mem_cons] at hDocuments
      have hFirst :
          ∀ {next failure},
            FileStep (device.copying 0 p) (device.writing 0 p)
                d p v (next, failure) →
              Spares
                (fun x =>
                  ∀ entry ∈ (p, v) :: rest,
                    ApartFrom d entry.1 x)
                d next :=
        fun hStep =>
          (hStep.spares hDocuments.1).mono fun x hApart =>
            hApart (p, v) List.mem_cons_self
      rcases writeFiles_cons device d p v rest with
        ⟨next, e, hStep, hRun⟩ | ⟨next, r, hStep, rfl, hRun⟩
      · rw [hRun]
        exact hFirst hStep
      · rw [hRun]
        have hRest :=
          ih device.next next hDocuments.2
        apply (hFirst hStep).trans
        apply hRest.mono
        intro x hApart other hMem
        exact
          (hApart other
            (List.mem_cons_of_mem _ hMem)).ofSameFolders
              (hFirst hStep).folders

------------------------------------------------------------
-- Written Places
------------------------------------------------------------

/- A document that is written stands at its place. -/
theorem FileStep.exists_place
    {v : Value}
    (hStep : FileStep copying writing d p v (next, none)) :
    ∃ l,
      d.locate p = .ok l ∧
        next.node? l =
          some (.file (DataFile.encodeJson v)) := by
  cases hStep with
  | done hKeep hWrite =>
      cases hWrite with
      | @whole l hLocate hFree =>
          refine
            ⟨l, hKeep.sameFolders.symm.locate_eq_ok hLocate, ?_⟩
          rw [node?_put (Disk.ne_nil_of_not_folder hFree),
            if_pos rfl]

/- No copy stands where a document does. -/
theorem ne_copyPlace_of_locate
    (hDocument : p.IsDocument)
    (hLocate : d.locate p = .ok l)
    (m : Location) :
    l ≠ copyPlace m := by
  rcases hDocument with ⟨segments, stem, hPath⟩
  rcases Disk.exists_parent_of_locate hPath
      (namesEntry_append_json stem) hLocate with
    ⟨parent, _, _, rfl⟩
  exact (copyPlace_ne (isBackupName_append_json stem)).symm

/-
  If all documents are written, each stands at its place that
  no later one of them is written to.
-/
theorem exists_place_of_writeFiles
    {before after : List (Path × Value)}
    {v : Value}
    (hDocuments :
      ∀ entry ∈ before ++ (p, v) :: after,
        entry.1.IsDocument)
    (hLast :
      ∀ later ∈ after, ∀ l,
        d.locate later.1 = .ok l → d.locate p ≠ .ok l)
    (hDone :
      (writeFiles device d
        (before ++ (p, v) :: after)).failure = none) :
    ∃ l,
      d.locate p = .ok l ∧
        (writeFiles device d
            (before ++ (p, v) :: after)).disk.node? l =
          some (.file (DataFile.encodeJson v)) := by
  induction before generalizing device d with
  | nil =>
      rw [List.nil_append, List.forall_mem_cons] at hDocuments
      rw [List.nil_append] at hDone ⊢
      rcases writeFiles_cons device d p v after with
        ⟨next, e, _, hRun⟩ | ⟨next, r, hStep, rfl, hRun⟩
      · rw [hRun] at hDone
        cases hDone
      · have hFirst := (hStep.spares hDocuments.1).folders
        rcases hStep.exists_place with ⟨l, hLocate, hWritten⟩
        have hApart :
            ∀ later ∈ after, ApartFrom next later.1 l := by
          intro later hMem m hPlace
          refine
            ⟨?_, ne_copyPlace_of_locate hDocuments.1 hLocate m⟩
          rintro rfl
          exact
            hLast later hMem l
              (hFirst.symm.locate_eq_ok hPlace) hLocate
        have hRest :=
          spares_writeFiles device.next next hDocuments.2
        refine ⟨l, hLocate, ?_⟩
        rw [hRun]
        dsimp only
        rw [hRest.node l hApart]
        exact hWritten
  | cons entry before ih =>
      obtain ⟨q, u⟩ := entry
      rw [List.cons_append, List.forall_mem_cons] at hDocuments
      rw [List.cons_append] at hDone ⊢
      rcases writeFiles_cons device d q u
          (before ++ (p, v) :: after) with
        ⟨next, e, _, hRun⟩ | ⟨next, r, hStep, rfl, hRun⟩
      · rw [hRun] at hDone
        cases hDone
      · rw [hRun] at hDone ⊢
        have hFirst := (hStep.spares hDocuments.1).folders
        have hNext :
            ∀ later ∈ after, ∀ l,
              next.locate later.1 = .ok l →
                next.locate p ≠ .ok l := by
          intro later hMem l hLater hSame
          exact
            hLast later hMem l
              (hFirst.symm.locate_eq_ok hLater)
              (hFirst.symm.locate_eq_ok hSame)
        rcases ih hDocuments.2 hNext hDone with
          ⟨l, hLocate, hNode⟩
        exact ⟨l, hFirst.symm.locate_eq_ok hLocate, hNode⟩

/-
  So one of them stands at its place, unless others are
  written there.
-/
theorem node?_writeFiles_of_mem
    {staged : List (Path × Value)}
    (hDocuments : ∀ entry ∈ staged, entry.1.IsDocument)
    {v : Value}
    (hMem : (p, v) ∈ staged)
    (hLocate : d.locate p = .ok l)
    (hApart :
      ∀ entry ∈ staged,
        entry = (p, v) ∨ ApartFrom d entry.1 l)
    (hDone : (writeFiles device d staged).failure = none) :
    (writeFiles device d staged).disk.node? l =
      some (.file (DataFile.encodeJson v)) := by
  -- If it is staged again, the last writing counts.
  rcases List.eq_append_cons_of_mem (List.mem_reverse.mpr hMem)
    with ⟨after, before, hReverse, hOnce⟩
  have hStaged :
      staged = before.reverse ++ (p, v) :: after.reverse := by
    rw [← List.reverse_reverse staged, hReverse]
    simp
  subst hStaged
  have hLast :
      ∀ later ∈ after.reverse, ∀ m,
        d.locate later.1 = .ok m → d.locate p ≠ .ok m := by
    intro later hLater m hPlace hSame
    cases hLocate.symm.trans hSame
    rcases hApart later (by simp at hLater ⊢; simp [hLater])
      with rfl | hThere
    · exact hOnce (List.mem_reverse.mp hLater)
    · exact (hThere l hPlace).1 rfl
  rcases exists_place_of_writeFiles hDocuments hLast hDone with
    ⟨m, hPlace, hNode⟩
  cases hLocate.symm.trans hPlace
  exact hNode

end Backup

end LootFilter
