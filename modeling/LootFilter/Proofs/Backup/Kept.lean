import LootFilter.Proofs.Backup.Steps

/-
  Trees in which the first files are kept.

  The invariant compares a tree with the tree as it was at
  first.  Below the roots, each file of the first tree is
  either unchanged and has no copy, or its copy holds what it
  held at first; and there are no other files.  A copy is
  made before its file is written, and a copy that is there
  is never written, so writing keeps the invariant.

  Main declarations:
    * `Backup.Pristine`
    * `Backup.Kept`
    * `Backup.Kept.refl`
    * `Backup.Kept.putCopy`
    * `Backup.Kept.putFile`
-/

namespace LootFilter

namespace Backup

open Disk (WellFormed SameFolders IsPlace node?_put)

------------------------------------------------------------
-- The Invariant
------------------------------------------------------------

/- Below the roots, nothing has the name of a copy. -/
def Pristine (d : Disk) (dir : Location) : Prop :=
  ∀ parent name,
    UnderRoot dir (parent ++ [name]) →
      d.node? (parent ++ [name]) ≠ none →
        isBackupName name = false

/- A tree in which no name is that of a copy is pristine. -/
theorem pristine_of_keys
    {d : Disk}
    {dir : Location}
    (hKeys :
      ∀ l ∈ Assoc.keys d.nodes, endsInBackup l = false) :
    Pristine d dir := by
  intro parent name _ hNode
  rcases Option.ne_none_iff_exists'.mp hNode with ⟨n, hSome⟩
  have hName :=
    hKeys _ (Disk.mem_keys_of_node? (by simp) hSome)
  simpa [endsInBackup] using hName

/- Below the roots, the files of a first tree are kept. -/
structure Kept
    (before : Disk)
    (dir : Location)
    (now : Disk) : Prop where
  tree : now.WellFormed
  folders : SameFolders before now
  original :
    ∀ l bytes,
      UnderRoot dir l →
        before.node? l = some (.file bytes) →
          (now.node? l = some (.file bytes) ∧
            now.node? (copyPlace l) = none) ∨
          ((∃ present,
              now.node? l = some (.file present)) ∧
            now.node? (copyPlace l) = some (.file bytes))
  noOther :
    ∀ l present,
      UnderRoot dir l →
        now.node? l = some (.file present) →
          (∃ bytes, before.node? l = some (.file bytes)) ∨
          ∃ m bytes,
            l = copyPlace m ∧
              before.node? m = some (.file bytes)

variable {before now : Disk} {dir parent l : Location}
variable {name : String}

/- A copy does not stand at a place with another name. -/
theorem copyPlace_ne
    (hName : isBackupName name = false) :
    copyPlace l ≠ parent ++ [name] := by
  rcases List.eq_nil_or_concat l with
    rfl | ⟨above, stem, rfl⟩
  · simp [copyPlace]
  · rw [List.concat_eq_append, copyPlace_concat]
    intro hEq
    have hLast := (List.append_inj' hEq rfl).2
    rw [List.singleton_inj] at hLast
    rw [← hLast] at hName
    simp at hName

/- In a pristine tree, no copy stands anywhere. -/
theorem Pristine.copyPlace_free
    (hPristine : Pristine before dir)
    (hUnder : UnderRoot dir l) :
    before.node? (copyPlace l) = none := by
  rcases hUnder.exists_concat with ⟨parent, name, rfl⟩
  rw [← underRoot_copyPlace_iff] at hUnder
  rw [copyPlace_concat] at hUnder ⊢
  by_contra hTaken
  have hName := hPristine _ _ hUnder hTaken
  simp at hName

/- A pristine tree keeps its own files. -/
theorem Kept.refl
    (hTree : before.WellFormed)
    (hPristine : Pristine before dir) :
    Kept before dir before where
  tree := hTree
  folders := SameFolders.refl before
  original := by
    intro l bytes hUnder hFile
    exact Or.inl ⟨hFile, hPristine.copyPlace_free hUnder⟩
  noOther := by
    intro l present _ hFile
    exact Or.inl ⟨present, hFile⟩

------------------------------------------------------------
-- What the Invariant Says of a Place
------------------------------------------------------------

/- A copy holds what its file held at first. -/
theorem Kept.file_of_copy
    (hKept : Kept before dir now)
    (hPristine : Pristine before dir)
    (hUnder : UnderRoot dir l)
    {n : Node}
    (hCopy : now.node? (copyPlace l) = some n) :
    ∃ bytes,
      n = .file bytes ∧
        before.node? l = some (.file bytes) := by
  have hFree := hPristine.copyPlace_free hUnder
  cases n with
  | folder =>
      rw [(hKept.folders.folder _).mpr hCopy] at hFree
      cases hFree
  | file present =>
      rcases hKept.noOther _ _
          (underRoot_copyPlace_iff.mpr hUnder) hCopy with
        ⟨bytes, hBefore⟩ | ⟨m, bytes, hEq, hBefore⟩
      · rw [hFree] at hBefore
        cases hBefore
      · have hSame : l = m := copyPlace_injective hEq
        subst hSame
        rcases hKept.original l bytes hUnder hBefore with
          hFirst | hSecond
        · rw [hCopy] at hFirst
          cases hFirst.2
        · rw [hCopy] at hSecond
          cases hSecond.2
          exact ⟨present, rfl, hBefore⟩

/- A file that is no copy was there at first. -/
theorem Kept.file_of_not_copy
    (hKept : Kept before dir now)
    (hUnder : UnderRoot dir (parent ++ [name]))
    (hName : isBackupName name = false)
    {present : ByteArray}
    (hFile :
      now.node? (parent ++ [name]) = some (.file present)) :
    ∃ bytes,
      before.node? (parent ++ [name]) =
        some (.file bytes) := by
  rcases hKept.noOther _ _ hUnder hFile with
    hBefore | ⟨m, _, hEq, _⟩
  · exact hBefore
  · exact absurd hEq.symm (copyPlace_ne hName)

------------------------------------------------------------
-- Putting Files
------------------------------------------------------------

/- A file without a copy is as it was at first. -/
theorem Kept.file_of_free
    (hKept : Kept before dir now)
    (hUnder : UnderRoot dir (parent ++ [name]))
    (hName : isBackupName name = false)
    {bytes : ByteArray}
    (hFile :
      now.node? (parent ++ [name]) = some (.file bytes))
    (hFree :
      now.node? (copyPlace (parent ++ [name])) = none) :
    before.node? (parent ++ [name]) = some (.file bytes) := by
  rcases hKept.file_of_not_copy hUnder hName hFile with
    ⟨old, hBefore⟩
  rcases hKept.original _ old hUnder hBefore with
    hFirst | hSecond
  · rwa [← hFile.symm.trans hFirst.1] at hBefore
  · rw [hFree] at hSecond
    cases hSecond.2

/- What is put outside of the roots does not matter. -/
theorem Kept.putOutside
    (hKept : Kept before dir now)
    (hOutside : ¬ UnderRoot dir (parent ++ [name]))
    (hParent : now.node? parent = some .folder)
    (hPlace : IsPlace (parent ++ [name]))
    (hFree : now.node? (parent ++ [name]) ≠ some .folder)
    (bytes : ByteArray) :
    Kept before dir
      (now.put (parent ++ [name]) (.file bytes)) := by
  have hSame :
      ∀ l, UnderRoot dir l →
        (now.put (parent ++ [name]) (.file bytes)).node? l =
          now.node? l := by
    intro l hUnder
    rw [node?_put (by simp), if_neg]
    rintro rfl
    exact hOutside hUnder
  refine
    ⟨hKept.tree.put hParent hPlace hFree bytes,
      hKept.folders.trans (sameFolders_put hFree bytes), ?_, ?_⟩
  · intro l old hUnder hBefore
    rw [hSame l hUnder,
      hSame _ (underRoot_copyPlace_iff.mpr hUnder)]
    exact hKept.original l old hUnder hBefore
  · intro l present hUnder hNow
    rw [hSame l hUnder] at hNow
    exact hKept.noOther l present hUnder hNow

/-
  A copy that is new keeps the files, as if the first tree had
  held what it holds.  For a whole copy, that is the first tree
  itself.
-/
theorem Kept.putCopy
    (hKept : Kept before dir now)
    (hPristine : Pristine before dir)
    (hUnder : UnderRoot dir (parent ++ [name]))
    (hName : isBackupName name = false)
    {bytes : ByteArray}
    (hFile :
      now.node? (parent ++ [name]) = some (.file bytes))
    (hFree : now.node? (copyPlace (parent ++ [name])) = none)
    (hPlace : IsPlace (copyPlace (parent ++ [name])))
    (left : ByteArray) :
    Kept (before.put (parent ++ [name]) (.file left)) dir
      (now.put (copyPlace (parent ++ [name]))
        (.file left)) := by
  have hParent : now.node? parent = some .folder :=
    hKept.tree.folder_of_append (by simp) hFile
  have hBefore := hKept.file_of_free hUnder hName hFile hFree
  have hRoot : parent ++ [name] ≠ [] := by simp
  have hCopyRoot : copyPlace (parent ++ [name]) ≠ [] := by simp
  have hFolder :
      now.node? (copyPlace (parent ++ [name])) ≠
        some .folder := by
    rw [hFree]
    simp
  have hFirstFolders :
      SameFolders
        (before.put (parent ++ [name]) (.file left)) before :=
    (sameFolders_put (by simp [hBefore]) left).symm
  refine
    ⟨?_, (hFirstFolders.trans hKept.folders).trans
      (sameFolders_put hFolder left), ?_, ?_⟩
  · rw [copyPlace_concat] at hPlace hFolder ⊢
    exact hKept.tree.put hParent hPlace hFolder left
  · intro l old hOld hFirst
    rw [node?_put hRoot] at hFirst
    rw [node?_put hCopyRoot, node?_put hCopyRoot]
    by_cases hSame : l = parent ++ [name]
    · subst hSame
      rw [if_pos rfl] at hFirst
      cases hFirst
      rw [if_neg (copyPlace_ne hName).symm, if_pos rfl]
      exact Or.inr ⟨⟨bytes, hFile⟩, rfl⟩
    · rw [if_neg hSame] at hFirst
      rcases hOld.exists_concat with ⟨above, stem, rfl⟩
      have hStem : isBackupName stem = false :=
        hPristine _ _ hOld (by simp [hFirst])
      have hCopies :
          copyPlace (above ++ [stem]) ≠
            copyPlace (parent ++ [name]) :=
        fun hEq => hSame (copyPlace_injective hEq)
      rw [if_neg (copyPlace_ne hStem).symm, if_neg hCopies]
      exact hKept.original _ old hOld hFirst
  · intro l present hThere hNow
    have hFiles :
        ∀ x,
          (∃ old, before.node? x = some (.file old)) →
            ∃ old,
              (before.put (parent ++ [name])
                  (.file left)).node? x =
                some (.file old) := by
      rintro x ⟨old, hOld⟩
      rw [node?_put hRoot]
      split
      · exact ⟨left, rfl⟩
      · exact ⟨old, hOld⟩
    rw [node?_put hCopyRoot] at hNow
    by_cases hEq : l = copyPlace (parent ++ [name])
    · rcases hFiles _ ⟨bytes, hBefore⟩ with ⟨old, hOld⟩
      exact Or.inr ⟨_, old, hEq, hOld⟩
    · rw [if_neg hEq] at hNow
      rcases hKept.noOther l present hThere hNow with
        hFirst | ⟨m, old, hCopy, hOld⟩
      · exact Or.inl (hFiles l hFirst)
      · rcases hFiles m ⟨old, hOld⟩ with ⟨held, hHeld⟩
        exact Or.inr ⟨m, held, hCopy, hHeld⟩

/-
  Writing a file that is no copy keeps the files, once
  something stands at the place of its copy.
-/
theorem Kept.putFile
    (hKept : Kept before dir now)
    (hPristine : Pristine before dir)
    (hName : isBackupName name = false)
    (hParent : now.node? parent = some .folder)
    (hPlace : IsPlace (parent ++ [name]))
    (hFree : now.node? (parent ++ [name]) ≠ some .folder)
    (hCopy : now.node? (copyPlace (parent ++ [name])) ≠ none)
    (bytes : ByteArray) :
    Kept before dir
      (now.put (parent ++ [name]) (.file bytes)) := by
  have hRoot : parent ++ [name] ≠ [] := by simp
  refine
    ⟨hKept.tree.put hParent hPlace hFree bytes,
      hKept.folders.trans (sameFolders_put hFree bytes),
      ?_, ?_⟩
  · intro l old hUnder hBefore
    rw [node?_put hRoot, node?_put hRoot,
      if_neg (copyPlace_ne hName)]
    by_cases hEq : l = parent ++ [name]
    · subst hEq
      rw [if_pos rfl]
      rcases hKept.original _ old hUnder hBefore with
        hFirst | hSecond
      · exact absurd hFirst.2 hCopy
      · exact Or.inr ⟨⟨bytes, rfl⟩, hSecond.2⟩
    · rw [if_neg hEq]
      exact hKept.original l old hUnder hBefore
  · intro l present hUnder hNow
    rw [node?_put hRoot] at hNow
    by_cases hEq : l = parent ++ [name]
    · subst hEq
      rcases Option.ne_none_iff_exists'.mp hCopy with
        ⟨n, hNode⟩
      rcases hKept.file_of_copy hPristine hUnder hNode with
        ⟨old, _, hBefore⟩
      exact Or.inl ⟨old, hBefore⟩
    · rw [if_neg hEq] at hNow
      exact hKept.noOther l present hUnder hNow

end Backup

end LootFilter
