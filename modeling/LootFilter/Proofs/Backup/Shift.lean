import LootFilter.Proofs.Backup.Copies
import LootFilter.Proofs.Disk.Follow
import LootFilter.Proofs.Disk.Order

/-
  Moving copies back to the places of their files.

  A copy may have a copy of its own, whose name has the suffix
  twice.  So a copy must be moved away before its own copy is
  moved to its place.  Moves in such an order come to one
  shift, in which every place gets what its copy held at
  first.

  Main declarations:
    * `Backup.moveBack`
    * `Backup.Copied`
    * `Backup.InOrder`
    * `Backup.Shifted`
    * `Backup.Shifted.moveBack`
    * `Backup.shifted_foldl_moveBack`
-/

namespace LootFilter

namespace Backup

open Disk (WellFormed SameFolders IsPlace node?_relocate)

variable {d now : Disk} {f l : Location}

------------------------------------------------------------
-- Moving One Copy Back
------------------------------------------------------------

/- The tree with the copy of a file moved to its place. -/
def moveBack (d : Disk) (f : Location) : Disk :=
  d.relocate (copyPlace f) f

/- Whether a place below the roots has a copy. -/
def Copied (now : Disk) (dir f : Location) : Prop :=
  UnderRoot dir f ∧ now.node? (copyPlace f) ≠ none

/-
  Whether the copy of a place can be moved back: it is a file,
  and the place is a proper one that no folder takes.
-/
structure Movable (d : Disk) (f : Location) : Prop where
  place : IsPlace f
  file : ∃ bytes, d.node? (copyPlace f) = some (.file bytes)
  free : d.node? f ≠ some .folder

/- No place is that of its own copy. -/
theorem copyPlace_ne_self
    (hRoot : l ≠ []) :
    copyPlace l ≠ l := by
  rcases List.eq_nil_or_concat l with
    rfl | ⟨parent, name, rfl⟩
  · exact absurd rfl hRoot
  · rw [List.concat_eq_append, copyPlace_concat]
    intro hEq
    have hName :=
      List.singleton_inj.mp (List.append_inj' hEq rfl).2
    have hSuffix : DataFile.backupSuffix ≠ "" := by decide
    have hLt := nameKey_lt_append name hSuffix
    rw [hName] at hLt
    exact lt_irrefl _ hLt

namespace Movable

/- The root of the tree has no copy to be moved. -/
theorem ne_nil (hMovable : Movable d f) : f ≠ [] := by
  rintro rfl
  exact hMovable.free rfl

/- Only the place and its copy matter. -/
theorem congr
    (hMovable : Movable d f)
    (hNode : d.node? f = now.node? f)
    (hCopy : d.node? (copyPlace f) = now.node? (copyPlace f)) :
    Movable now f where
  place := hMovable.place
  file := hCopy ▸ hMovable.file
  free := hNode ▸ hMovable.free

/- The place has a folder above it. -/
theorem exists_parent
    (hMovable : Movable d f)
    (hTree : d.WellFormed) :
    ∃ parent name,
      f = parent ++ [name] ∧
        d.node? parent = some .folder := by
  rcases List.eq_nil_or_concat f with
    rfl | ⟨parent, name, rfl⟩
  · exact absurd rfl hMovable.ne_nil
  · rcases hMovable.file with ⟨bytes, hFile⟩
    rw [List.concat_eq_append, copyPlace_concat] at hFile
    exact
      ⟨parent, name, List.concat_eq_append,
        hTree.folder_of_append (by simp) hFile⟩

/- What stands where after the copy is moved back. -/
theorem node?_moveBack
    (hMovable : Movable d f)
    (hTree : d.WellFormed)
    (x : Location) :
    (moveBack d f).node? x =
      if x = f then d.node? (copyPlace f)
      else if x = copyPlace f then none
      else d.node? x := by
  rcases hMovable.file with ⟨bytes, hFile⟩
  rw [moveBack,
    node?_relocate hTree hFile hMovable.free
      (copyPlace_ne_self hMovable.ne_nil),
    hFile]

/- The tree stays well-formed. -/
theorem wellFormed_moveBack
    (hMovable : Movable d f)
    (hTree : d.WellFormed) :
    (moveBack d f).WellFormed := by
  rcases hMovable.file with ⟨bytes, hFile⟩
  have hNe := copyPlace_ne_self hMovable.ne_nil
  rcases hMovable.exists_parent hTree with
    ⟨parent, name, rfl, hParent⟩
  exact
    hTree.relocate hFile hParent hMovable.place hMovable.free
      hNe

/- No folder comes or goes. -/
theorem sameFolders_moveBack
    (hMovable : Movable d f)
    (hTree : d.WellFormed) :
    SameFolders d (moveBack d f) where
  home := rfl
  folder := by
    intro x
    rcases hMovable.file with ⟨bytes, hFile⟩
    rw [hMovable.node?_moveBack hTree]
    by_cases hPlace : x = f
    · simp [hPlace, hFile, hMovable.free]
    · by_cases hCopy : x = copyPlace f
      · rw [if_neg hPlace, if_pos hCopy, hCopy, hFile]
        simp
      · rw [if_neg hPlace, if_neg hCopy]

end Movable

------------------------------------------------------------
-- Moving Many Copies Back
------------------------------------------------------------

variable {files gone more : List Location}

/-
  Whether the copies of places can be moved back one after the
  other: no place is the copy of a later one, so each copy is
  still there when its turn comes.
-/
structure InOrder (d : Disk) (files : List Location) :
    Prop where
  distinct : files.Nodup
  inOrder : files.Pairwise fun f g => f ≠ copyPlace g
  movable : ∀ f ∈ files, Movable d f

/- Moves in order can follow others that they stay apart from. -/
theorem InOrder.append
    (hFirst : InOrder d files)
    (hSecond : InOrder d more)
    (hApart :
      ∀ f ∈ files, ∀ g ∈ more, f ≠ g ∧ f ≠ copyPlace g) :
    InOrder d (files ++ more) where
  distinct := by
    apply hFirst.distinct.append hSecond.distinct
    intro f hF hG
    exact (hApart f hF f hG).1 rfl
  inOrder := by
    apply List.pairwise_append.mpr
    exact
      ⟨hFirst.inOrder, hSecond.inOrder,
        fun f hF g hG => (hApart f hF g hG).2⟩
  movable := by
    intro f hMem
    rcases List.mem_append.mp hMem with hF | hG
    · exact hFirst.movable f hF
    · exact hSecond.movable f hG

/-
  The tree with the copies of places shifted to them, all at
  once.
-/
structure Shifted
    (d : Disk)
    (files : List Location)
    (now : Disk) : Prop where
  tree : now.WellFormed
  folders : SameFolders d now
  node :
    ∀ x,
      now.node? x =
        if x ∈ files then d.node? (copyPlace x)
        else if x ∈ files.map copyPlace then none
        else d.node? x

/- The places of copies are as distinct as the places. -/
theorem copyPlace_mem_map_iff :
    copyPlace f ∈ files.map copyPlace ↔ f ∈ files :=
  List.mem_map_of_injective fun _ _ => copyPlace_injective

/- Without places, nothing is shifted. -/
theorem shifted_nil
    (hTree : d.WellFormed) :
    Shifted d [] d where
  tree := hTree
  folders := SameFolders.refl d
  node x := by simp

namespace Shifted

/- A copy that is neither shifted nor replaced is as it was. -/
theorem node?_copyPlace
    (hShifted : Shifted d gone now)
    (hNew : f ∉ gone)
    (hOrder : copyPlace f ∉ gone) :
    now.node? (copyPlace f) = d.node? (copyPlace f) := by
  rw [hShifted.node, if_neg hOrder,
    if_neg (mt copyPlace_mem_map_iff.mp hNew)]

/- So it can still be moved back. -/
theorem movable
    (hShifted : Shifted d gone now)
    (hNew : f ∉ gone)
    (hOrder : copyPlace f ∉ gone)
    (hMovable : Movable d f) :
    Movable now f where
  place := hMovable.place
  file := by
    rw [hShifted.node?_copyPlace hNew hOrder]
    exact hMovable.file
  free := mt (hShifted.folders.folder f).mpr hMovable.free

/- Moving it back shifts it as well. -/
theorem moveBack
    (hShifted : Shifted d gone now)
    (hNew : f ∉ gone)
    (hOrder : copyPlace f ∉ gone)
    (hMovable : Movable d f) :
    Shifted d (gone ++ [f]) (moveBack now f) := by
  have hNow := hShifted.movable hNew hOrder hMovable
  refine
    ⟨hNow.wellFormed_moveBack hShifted.tree,
      hShifted.folders.trans
        (hNow.sameFolders_moveBack hShifted.tree), ?_⟩
  intro x
  rw [hNow.node?_moveBack hShifted.tree,
    hShifted.node?_copyPlace hNew hOrder]
  by_cases hPlace : x = f
  · simp [hPlace]
  · by_cases hCopy : x = copyPlace f
    · subst hCopy
      simp [hPlace, hOrder]
    · simp [hPlace, hCopy, hShifted.node x]

end Shifted

/- Moves in order come to a shift. -/
theorem shifted_foldl_moveBack
    (hTree : d.WellFormed)
    (hOrder : InOrder d files) :
    Shifted d files (files.foldl moveBack d) := by
  induction files using List.reverseRecOn with
  | nil => exact shifted_nil hTree
  | append_singleton files f ih =>
      have hDistinct := List.nodup_append.mp hOrder.distinct
      have hPairs := List.pairwise_append.mp hOrder.inOrder
      have hFirst : InOrder d files :=
        ⟨hDistinct.1, hPairs.1, fun g hMem =>
          hOrder.movable g (List.mem_append_left _ hMem)⟩
      rw [List.foldl_concat]
      apply (ih hFirst).moveBack
      · intro hMem
        exact hDistinct.2.2 f hMem f (by simp) rfl
      · intro hMem
        exact hPairs.2.2 _ hMem f (by simp) rfl
      · exact hOrder.movable f (by simp)

end Backup

end LootFilter
